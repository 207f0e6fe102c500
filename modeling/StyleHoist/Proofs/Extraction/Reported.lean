import StyleHoist.Proofs.Extraction.Inspected
import StyleHoist.Proofs.Style.Placement

/-!
# Going back to a reported literal

An inspection reports where literals start, by line and column. A host that extracts from there gets the reported
literal and no other if the position leads back to it.

- `madeOf_extractOne`: what is extracted from a cursor is made of the literal at which the cursor points.
- `leadsBack_iff`: when a reported position leads back.

A position does not lead back if the literal stands in a value of another one: from there the outer literal is
extracted.
-/

namespace StyleHoist

open Text

variable {t : Text} {path : String} {target : StyleTarget}

/-- The style attributes and elements of a file; one that cannot be read has none. -/
def sitesOf (path : String) (t : Text) : Sites :=
  match Script.itemsOfFile path t with
  | .ok items => Sites.of items
  | .error _ => {}

theorem targetsOf_eq_findAll (path : String) (t : Text) : targetsOf path t = findAll (sitesOf path t) t := by
  unfold targetsOf sitesOf
  cases Script.itemsOfFile path t <;> rfl

/-- The offset to which hosts turn a reported position. -/
def TargetSummary.offsetIn (s : TargetSummary) (t : Text) : Nat :=
  offsetAt t ⟨s.line - 1, s.column - 1⟩

/-- The position that is reported for a literal leads back to it: a cursor there points at the literal, and what is
extracted from there is made of it alone. -/
structure LeadsBack (path : String) (t : Text) (target : StyleTarget) : Prop where
  found : findAt (sitesOf path t) t ((target.summary t).offsetIn t) = .target target
  extracts : ∀ name settings e,
    extractOne t path ((target.summary t).offsetIn t) name settings = .ok (.extracted e) →
      ∃ style : NamedStyle, style.1.target = target ∧ e.MadeOf t settings [style]

/-- What is extracted from a cursor is made of the literal at which the cursor points, and of no other. -/
theorem madeOf_extractOne {offset : Nat} {name : Option Text} {settings : Settings} {e : Extraction}
    (hfound : findAt (sitesOf path t) t offset = .target target)
    (h : extractOne t path offset name settings = .ok (.extracted e)) :
    ∃ style : NamedStyle, style.1.target = target ∧ e.MadeOf t settings [style] := by
  rcases extractOne_cases t path offset name settings with ⟨style, htakes, heq⟩ | ⟨notice, heq⟩
  · obtain ⟨items, found, hitems, hfound', hprepare⟩ := htakes.found
    obtain rfl : found = target := by
      rw [sitesOf, hitems] at hfound
      exact Located.target.inj (hfound'.symm.trans hfound)
    have hof := (splits_of_prepare hprepare).of
    refine ⟨style, hof, madeOf_synthesize (fun s hs => ?_) (map_extracted_eq_ok_iff.1 (heq.symm.trans h))⟩
    rw [List.mem_singleton.1 hs, hof]
    exact hprepare
  · rw [heq] at h
    cases h

/-- A position leads back if a cursor there points at the literal. -/
theorem leadsBack_of_found (h : findAt (sitesOf path t) t ((target.summary t).offsetIn t) = .target target) :
    LeadsBack path t target :=
  ⟨h, fun _ _ _ => madeOf_extractOne h⟩

/-- Where the file is laid out as nested ranges, a position that is reported for a literal is turned into the offset at
which the literal starts. -/
theorem offsetIn_summary (h : (sitesOf path t).LaidOut t) (htarget : target ∈ targetsOf path t) :
    (target.summary t).offsetIn t = target.range.start := by
  rw [targetsOf_eq_findAll] at htarget
  exact offsetAt_positionAt_of_startsCharacter (h.startsCharacter_of_mem_findAll htarget)

/-- **The position that is reported for a literal leads back to it if and only if a cursor there points at it; where the
file is laid out as nested ranges, if and only if nothing is in the way of the literal.** -/
theorem leadsBack_iff (htarget : target ∈ targetsOf path t) :
    (LeadsBack path t target ↔ (sitesOf path t).PointsAt t ((target.summary t).offsetIn t) target) ∧
      ((sitesOf path t).LaidOut t → (LeadsBack path t target ↔ ¬(sitesOf path t).Contests target)) := by
  have hfound : LeadsBack path t target ↔
      findAt (sitesOf path t) t ((target.summary t).offsetIn t) = .target target :=
    ⟨LeadsBack.found, leadsBack_of_found⟩
  refine ⟨hfound.trans findAt_eq_target_iff, fun hlaid => ?_⟩
  rw [hfound, offsetIn_summary hlaid htarget]
  exact hlaid.findAt_start_iff (targetsOf_eq_findAll path t ▸ htarget)

/-- Literals on elements inside of others, in arrays, behind one another and behind characters of several bytes. -/
def scatteredLiterals : Text :=
  ("const A = () => (\n\t<View style=\x7b\x7b flex: 1 \x7d\x7d title='é'>é<Text style=\x7b[s.a, \x7b top: 1 \x7d, " ++
    "\x7b left: 2 \x7d]\x7d>ü</Text><B style=\x7b\x7b margin: 3 \x7d\x7d />\n\t</View>\n);\n").toList

/-- All four positions lead back. -/
theorem leadsBack_scatteredLiterals : (targetsOf "App.tsx" scatteredLiterals).length = 4 ∧
    ∀ target ∈ targetsOf "App.tsx" scatteredLiterals, LeadsBack "App.tsx" scatteredLiterals target := by
  obtain ⟨hlength, hlaid, hclear⟩ : (targetsOf "App.tsx" scatteredLiterals).length = 4 ∧
      (sitesOf "App.tsx" scatteredLiterals).LaidOut scatteredLiterals ∧
      ∀ target ∈ targetsOf "App.tsx" scatteredLiterals, ¬(sitesOf "App.tsx" scatteredLiterals).Contests target := by
    decide +kernel
  exact ⟨hlength, fun target htarget => ((leadsBack_iff htarget).2 hlaid).2 (hclear target htarget)⟩

/-- An object of an array, on an element inside a value of another literal. -/
def nestedElement : Text :=
  ("const A = () => <View style=\x7b\x7b flex: 1, icon: <Text style=\x7b[styles.a, \x7b margin: 2 \x7d]\x7d /> " ++
    "\x7d\x7d />;").toList

/-- The position of the object leads to the outer literal. -/
theorem not_leadsBack_nestedElement : ∃ inner ∈ targetsOf "App.tsx" nestedElement,
    (∃ outer ∈ targetsOf "App.tsx" nestedElement, outer.range ≠ inner.range ∧
      findAt (sitesOf "App.tsx" nestedElement) nestedElement ((inner.summary nestedElement).offsetIn nestedElement) =
        .target outer) ∧
      ¬LeadsBack "App.tsx" nestedElement inner := by
  have hleads : ∃ inner ∈ targetsOf "App.tsx" nestedElement, ∃ outer ∈ targetsOf "App.tsx" nestedElement,
      outer.range ≠ inner.range ∧ findAt (sitesOf "App.tsx" nestedElement) nestedElement
        ((inner.summary nestedElement).offsetIn nestedElement) = .target outer := by decide +kernel
  obtain ⟨inner, hinner, outer, houter, hrange, hfound⟩ := hleads
  refine ⟨inner, hinner, ⟨outer, houter, hrange, hfound⟩, fun hback => hrange ?_⟩
  rw [Located.target.inj (hfound.symm.trans hback.found)]

end StyleHoist
