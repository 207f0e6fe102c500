import StyleHoist.Proofs.Script.Rules.Items
import StyleHoist.Script.File
import StyleHoist.Style.Site

/-!
# What is read from a file stands where it says

The items of a script and all their parts are placed in the text that was read. A file is read behind the byte-order
mark that it may begin with, so they are placed in what stands there.

- `placed_of_readScript`, `placed_of_itemsOfFile`: the items of scripts and of files.
- `Site.StandsIn`, `standsIn_of_mem_sites`: the style attributes among their parts.
-/

namespace StyleHoist

namespace Script

open Text

/-! ## Scripts and files -/

/-- The line that names an interpreter is a part of the text. -/
theorem takes_afterInterpreter (t : Text) : Takes 0 t (afterInterpreter t).1 (afterInterpreter t).2 := by
  unfold afterInterpreter
  split
  · exact takes_takeBytes _ 0 _
  · exact Takes.refl 0 t

theorem sound_startingAt {T before rest : Text} (h : T = before ++ rest) (around : Surroundings) :
    (State.startingAt (size before) rest around).Sound T := by
  obtain ⟨gap, part, hstands, -⟩ := standsAt_lexeme .code before rest
  rw [← h] at hstands
  exact ⟨_, _, hstands⟩

instance keeps_moduleItems {T : Text} {g : Knot} [Begins g] [Ties T g] : Keeps T (moduleItems g) := by
  unfold moduleItems
  exact .steps

/-- **The items of a script are placed in its text.** -/
theorem placed_of_readScript {markup flawed : Bool} {t : Text} {items : List Node}
    (h : readScript markup t = .ok (items, flawed)) : ∀ n ∈ items, Placed t n := by
  obtain ⟨before, ht, hbytes⟩ := takes_afterInterpreter t
  rw [Nat.zero_add] at hbytes
  have hsound := sound_startingAt ht { markup }
  rw [← hbytes] at hsound
  have hkeeps := (keeps_moduleItems (T := t) (g := read (depthFor t))).keepsAt _ hsound
  unfold readScript at h
  dsimp only at h
  split at h
  · rename_i hrun
    cases h
    obtain ⟨-, -, hgood⟩ := (keepsAt_ok hrun).1 hkeeps
    exact fun n hn => (good_list.1 hgood n hn).node
  · cases h

/-- The items of a file are placed in what stands behind its byte-order mark. -/
theorem placed_of_itemsOfFile {path : String} {t : Text} {items : List Node} (h : itemsOfFile path t = .ok items) :
    ∀ n ∈ items, Placed (dropMark t) n := by
  unfold itemsOfFile at h
  split at h
  · rename_i hread
    cases h
    exact placed_of_readScript hread
  · cases h

end Script

/-! ## Style attributes -/

open Script

/-- A style attribute stands in a text: its name, its container and the value in it. -/
structure Site.StandsIn (T : Text) (s : Site) (container : Span) (value : Node) : Prop where
  assigns : Assigns T "style".toList s.attr container
  between : Between T '\x7b' '\x7d' container
  contains : Contains T container value
  placed : Placed T value
  value_eq : s.value = value.span
  content_eq : s.content = .of value

/-- The style attributes that a visit has collected stand in a text. -/
def Sites.StandIn (T : Text) (sites : Sites) : Prop :=
  ∀ s ∈ sites.sites, ∃ container value, s.StandsIn T container value

variable {T : Text}

theorem standsIn_of_siteOf? {owner : Option Nat} {n : Node} {s : Site} (hn : Placed T n)
    (h : siteOf? owner n = some s) : ∃ container value, s.StandsIn T container value := by
  unfold siteOf? at h
  split at h
  · rename_i name span container value
    split at h
    · rename_i hname
      cases h
      obtain rfl := eq_of_beq hname
      cases hn with
      | mk hshaped hparts =>
        cases hparts _ List.mem_cons_self with
        | mk hcontainer hvalue =>
          exact ⟨container, value, hshaped _ rfl rfl, hcontainer.1, hcontainer.2 _ List.mem_cons_self,
            hvalue _ List.mem_cons_self, rfl, rfl⟩
    · cases h
  · cases h

mutual

/-- A visit of what is placed collects style attributes that stand in the text. -/
theorem standIn_visit (owner : Option Nat) (depth : Nat) {found : Sites} (hfound : found.StandIn T) :
    ∀ {n : Node}, Placed T n → (visit owner depth found n).StandIn T
  | .mk kind span parts, hn => by
    have hparts : ∀ p ∈ parts, Placed T p := by
      cases hn with
      | mk _ hparts => exact hparts
    unfold visit
    split
    · rename_i heq
      cases heq
      have hfound' : Sites.StandIn T { found with elements := found.elements ++ [⟨span, depth⟩] } := hfound
      exact standIn_visitAll _ _ hfound' hparts
    · rename_i heq
      cases heq
      refine standIn_visitAll _ _ (fun s hs => ?_) hparts
      rcases List.mem_append.1 hs with hs | hs
      · exact hfound s hs
      · exact standsIn_of_siteOf? hn (Option.mem_toList.1 hs)

theorem standIn_visitAll (owner : Option Nat) (depth : Nat) {found : Sites} (hfound : found.StandIn T) :
    ∀ {ns : List Node}, (∀ n ∈ ns, Placed T n) → (visitAll owner depth found ns).StandIn T
  | [], _ => hfound
  | n :: ns, hns => by
    unfold visitAll
    exact standIn_visitAll _ _ (standIn_visit _ _ hfound (hns n List.mem_cons_self))
      fun m hm => hns m (List.mem_cons_of_mem n hm)

end

/-- **The style attributes of a file stand in what it says behind its byte-order mark.** -/
theorem standsIn_of_mem_sites {path : String} {t : Text} {items : List Node} (h : itemsOfFile path t = .ok items)
    {s : Site} (hs : s ∈ (Sites.of items).sites) : ∃ container value, s.StandsIn (dropMark t) container value :=
  standIn_visitAll none 0 (fun _ hmem => absurd hmem List.not_mem_nil) (placed_of_itemsOfFile h) s hs

end StyleHoist
