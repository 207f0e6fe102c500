import StyleHoist.Proofs.Json.Passing

/-!
# Printed JSON

What is printed is one of the texts of a value. Objects are printed on one line or with one member a line; both are
instances of one layout, in which each member is led by its key (`writes_members`).

- `writes_compact_object`, `writes_prettyAt_object`: an object is printed as one of its texts if its members are.
-/

namespace StyleHoist
namespace Json

theorem writes_stringText (t : Text) : Writes (.string t) (stringText t) :=
  .string (writesString_charText t)

theorem writes_compact_bool (b : Bool) : Writes (.bool b) (compact (.bool b)) := by
  cases b with
  | true => exact .yes
  | false => exact .no

theorem writesKey_stringText {a c : Text} (ha : Blanks a) (hc : Blanks c) (key : Text) :
    WritesKey key (a ++ stringText key ++ ':' :: c) := by
  have hkey := WritesKey.mk ha (writesString_charText key) (b := []) rfl hc
  simpa [stringText] using hkey

section Members

variable (print : List (Text × Json) → Text) (lead : Text → Text) (text : Json → Text) (margin : Text)
  (hone : ∀ k v, print [(k, v)] = lead k ++ text v)
  (hmore : ∀ k v m ms, print ((k, v) :: m :: ms) = lead k ++ text v ++ ',' :: print (m :: ms))

include hone hmore

/-- Members that are printed with commas between them are parts of an object; the last has the margin before the
closing brace. -/
theorem exists_parts_of_print (hlead : ∀ k, WritesKey k (lead k)) (hmargin : Blanks margin) (m : Text × Json)
    (ms : List (Text × Json)) (h : ∀ q ∈ m :: ms, Writes q.2 (text q.2)) : ∃ n ns,
      (n :: ns : List (Text × Part)).map (fun q => (q.1, q.2.value)) = m :: ms ∧
        (∀ q ∈ n :: ns, (WritesKey q.1 q.2.lead ∧ Blanks q.2.margin) ∧ Writes q.2.value q.2.text) ∧
          print (m :: ms) ++ margin ++ ['\x7d'] = n.2.written ++ moreText '\x7d' (ns.map (·.2)) := by
  obtain ⟨hm, hms⟩ := List.forall_mem_cons.1 h
  induction ms generalizing m with
  | nil =>
    refine ⟨(m.1, ⟨lead m.1, m.2, text m.2, margin⟩), [], rfl, ?_, ?_⟩
    · simpa using ⟨⟨hlead m.1, hmargin⟩, hm⟩
    · simp [hone, Part.written, moreText]
  | cons m' ms ih =>
    obtain ⟨hm', hms'⟩ := List.forall_mem_cons.1 hms
    obtain ⟨n, ns, hmembers, hparts, htext⟩ := ih m' hms hm' hms'
    refine ⟨(m.1, ⟨lead m.1, m.2, text m.2, []⟩), n :: ns, ?_, ?_, ?_⟩
    · rw [List.map_cons, hmembers]
    · exact List.forall_mem_cons.2 ⟨⟨⟨hlead m.1, rfl⟩, hm⟩, hparts⟩
    · have hrest : print (m :: m' :: ms) ++ margin ++ ['\x7d'] =
          lead m.1 ++ text m.2 ++ ',' :: (print (m' :: ms) ++ margin ++ ['\x7d']) := by
        rw [hmore]
        simp
      rw [hrest, htext]
      simp [Part.written, moreText]

theorem writes_members (hlead : ∀ k, WritesKey k (lead k)) (hmargin : Blanks margin) {m : Text × Json}
    {ms : List (Text × Json)} (h : ∀ q ∈ m :: ms, Writes q.2 (text q.2)) :
    Writes (.object (m :: ms)) ('\x7b' :: (print (m :: ms) ++ margin ++ ['\x7d'])) := by
  obtain ⟨n, ns, hmembers, hparts, htext⟩ :=
    exists_parts_of_print print lead text margin hone hmore hlead hmargin m ms h
  have hwrites := Writes.members (m := n) (fun q hq => (hparts q hq).1) fun q hq => (hparts q hq).2
  rwa [hmembers, ← htext] at hwrites

end Members

/-- An object on one line. -/
theorem writes_compact_object {m : Text × Json} {ms : List (Text × Json)}
    (h : ∀ q ∈ m :: ms, Writes q.2 (compact q.2)) : Writes (.object (m :: ms)) (compact (.object (m :: ms))) := by
  have hwrites := writes_members compactMembers (fun k => stringText k ++ [':']) compact [] (by simp [compactMembers])
    (by simp [compactMembers]) (writesKey_stringText (a := []) (c := []) rfl rfl) rfl h
  simpa [compact] using hwrites

theorem blanks_lineStart (depth : Nat) : Blanks (lineStart depth) := by
  simp [Blanks, lineStart, isBlank]

/-- An object with one member a line. -/
theorem writes_prettyAt_object {depth : Nat} {m : Text × Json} {ms : List (Text × Json)}
    (h : ∀ q ∈ m :: ms, Writes q.2 (prettyAt (depth + 1) q.2)) :
    Writes (.object (m :: ms)) (prettyAt depth (.object (m :: ms))) := by
  have hwrites := writes_members (prettyMembers (depth + 1))
    (fun k => lineStart (depth + 1) ++ stringText k ++ [':', ' ']) (prettyAt (depth + 1)) (lineStart depth) (by simp [prettyMembers]) (by simp [prettyMembers])
    (writesKey_stringText (blanks_lineStart _) rfl) (blanks_lineStart _) h
  simpa [prettyAt] using hwrites

end Json
end StyleHoist
