import Mathlib.Data.List.Nodup
import Mathlib.Logic.Nontrivial.Basic
import StyleHoist.Style.Body

/-!
# What styles mean

A style is a map from keys to values. An object literal sets its keys from left to right, so that a later value overrides
an earlier one, and so do the elements of a style array. What is computed in a literal may come to anything.

- `eval_append`: a literal in two parts is the second over the first.
- `keepsOrder_iff`: the literal values of an object may be moved in front of the rest, whatever is computed, if and only
  if no computed property that comes before them can override them there, and none of them is lost.
-/

namespace StyleHoist

variable {V : Type}

/-! ## Style maps -/

/-- The values that a style has for keys. -/
abbrev StyleMap (V : Type) := Text → Option V

/-- A style with the keys of another set over its own. -/
def StyleMap.override (m top : StyleMap V) : StyleMap V := fun k => (top k).or (m k)

/-- A style with one key set. -/
def StyleMap.set (m : StyleMap V) (w : Text × V) : StyleMap V := fun k => if w.1 = k then some w.2 else m k

/-- The style that comes of setting keys from left to right. -/
def evalFrom (m : StyleMap V) (ws : List (Text × V)) : StyleMap V := ws.foldl StyleMap.set m

/-- The style of an object literal that sets keys from left to right. -/
def eval (ws : List (Text × V)) : StyleMap V := evalFrom (fun _ => none) ws

/-- The style of an array of styles. -/
def evalArray (ms : List (StyleMap V)) : StyleMap V := ms.foldl StyleMap.override fun _ => none

theorem evalFrom_apply (m : StyleMap V) (ws : List (Text × V)) (k : Text) :
    evalFrom m ws k = (eval ws k).or (m k) := by
  induction ws generalizing m with
  | nil => rfl
  | cons w ws ih =>
    have hcons : evalFrom m (w :: ws) = evalFrom (m.set w) ws := rfl
    have hnone : eval (w :: ws) = evalFrom (StyleMap.set (fun _ => none) w) ws := rfl
    rw [hcons, hnone, ih, ih (StyleMap.set (fun _ => none) w), Option.or_assoc]
    congr 1
    simp only [StyleMap.set]
    split <;> rfl

theorem eval_append (vs ws : List (Text × V)) (k : Text) : eval (vs ++ ws) k = (eval ws k).or (eval vs k) := by
  have happend : eval (vs ++ ws) = evalFrom (eval vs) ws := List.foldl_append
  rw [happend, evalFrom_apply]

theorem eval_cons (w : Text × V) (ws : List (Text × V)) (k : Text) :
    eval (w :: ws) k = (eval ws k).or (if w.1 = k then some w.2 else none) :=
  evalFrom_apply (StyleMap.set (fun _ => none) w) ws k

theorem eval_eq_none {ws : List (Text × V)} {k : Text} (h : ∀ w ∈ ws, w.1 ≠ k) : eval ws k = none := by
  induction ws with
  | nil => rfl
  | cons w ws ih =>
    rw [eval_cons, ih fun v hv => h v (List.mem_cons_of_mem _ hv), if_neg (h w (by simp))]
    rfl

theorem mem_of_eval {ws : List (Text × V)} {k : Text} {v : V} (h : eval ws k = some v) : (k, v) ∈ ws := by
  induction ws with
  | nil => cases h
  | cons w ws ih =>
    rw [eval_cons] at h
    cases hrest : eval ws k with
    | some u =>
      obtain rfl : u = v := by simpa [hrest] using h
      exact List.mem_cons_of_mem _ (ih hrest)
    | none =>
      rw [hrest, Option.none_or] at h
      split at h
      · rename_i hkey
        obtain rfl : w.2 = v := by simpa using h
        exact hkey ▸ List.mem_cons_self
      · cases h

theorem isSome_eval {ws : List (Text × V)} {k : Text} {v : V} (h : (k, v) ∈ ws) : (eval ws k).isSome = true := by
  obtain ⟨before, after, rfl⟩ := List.append_of_mem h
  rw [eval_append, eval_cons, if_pos rfl]
  cases eval after k <;> rfl

/-- Where all that is written to a key is one value, the key gets this value. -/
theorem eval_eq_some {ws : List (Text × V)} {k : Text} {v : V} (hmem : ∃ u, (k, u) ∈ ws)
    (hall : ∀ u, (k, u) ∈ ws → u = v) : eval ws k = some v := by
  obtain ⟨u, hu⟩ := hmem
  obtain ⟨v', hv'⟩ := Option.isSome_iff_exists.1 (isSome_eval hu)
  rw [hv', hall v' (mem_of_eval hv')]

/-- The order in which different keys are set does not matter. -/
theorem eval_perm {vs ws : List (Text × V)} (h : vs.Perm ws) (hkeys : (vs.map (·.1)).Nodup) : eval vs = eval ws := by
  funext k
  have hsame : ∀ {u v}, (k, u) ∈ vs → (k, v) ∈ vs → u = v := fun hu hv =>
    congrArg Prod.snd (List.inj_on_of_nodup_map hkeys hu hv rfl)
  cases hv : eval vs k with
  | some v =>
    have hmem := mem_of_eval hv
    exact (eval_eq_some ⟨v, h.mem_iff.1 hmem⟩ fun u hu => hsame (h.mem_iff.2 hu) hmem).symm
  | none =>
    refine (eval_eq_none fun w hw hk => ?_).symm
    have hsome := isSome_eval (k := k) (v := w.2) (h.mem_iff.2 (hk ▸ hw))
    rw [hv] at hsome
    cases hsome

/-! ## Properties -/

/-- What a property of an object literal sets. -/
inductive Slot (V : Type)
  /-- A key to the value of a literal. -/
  | literal (key : Text) (value : V)
  /-- A key to a value that is computed. -/
  | named (key : Text)
  /-- A key that is computed to a value that is computed. -/
  | computed
  /-- All keys of a style that is computed. -/
  | spread
deriving DecidableEq

/-- What is computed in an object literal, by the places of its properties. -/
structure Interpretation (V : Type) where
  value : Nat → V
  key : Nat → Text
  spread : Nat → List (Text × V)

namespace Slot

/-- Whether nothing has to be computed for the property. -/
def isLiteral : Slot V → Bool
  | literal _ _ => true
  | _ => false

/-- The key and the value of a literal property. -/
def literal? : Slot V → Option (Text × V)
  | literal k v => some (k, v)
  | _ => none

/-- Whether the property sets the key to something that is computed, for some interpretation. -/
def Reaches (k : Text) : Slot V → Prop
  | literal _ _ => False
  | named k' => k' = k
  | computed => True
  | spread => True

/-- What the property at a place sets. -/
def writes (I : Interpretation V) : Slot V × Nat → List (Text × V)
  | (literal k v, _) => [(k, v)]
  | (named k, i) => [(k, I.value i)]
  | (computed, i) => [(I.key i, I.value i)]
  | (spread, i) => I.spread i

end Slot

open Slot

/-- The style of an object literal. -/
def meaning (I : Interpretation V) (slots : List (Slot V × Nat)) : StyleMap V :=
  eval (slots.flatMap (writes I))

/-- The properties for which something has to be computed. -/
def computedSlots (slots : List (Slot V × Nat)) : List (Slot V × Nat) :=
  slots.filter fun s => !s.1.isLiteral

/-- The slot is no literal with the key. -/
def Slot.NotLiteralOf (k : Text) (s : Slot V) : Prop := ∀ v, s ≠ .literal k v

/-- The order in which literal properties and others stand does not matter, `entry` being the style of the literal ones
alone: where a literal is the last one for its key, either a computed property for this key follows, or none before it
can reach the key and the entry has its value. -/
def KeepsOrder (slots : List (Slot V × Nat)) (entry : StyleMap V) : Prop :=
  ∀ before after k v i, slots = before ++ (.literal k v, i) :: after → (∀ s ∈ after, s.1.NotLiteralOf k) →
    (∃ s ∈ after, s.1 = .named k) ∨ ((∀ s ∈ before, ¬s.1.Reaches k) ∧ entry k = some v)

/-! ## Literals among computed properties -/

theorem meaning_append (I : Interpretation V) (ss ts : List (Slot V × Nat)) (k : Text) :
    meaning I (ss ++ ts) k = (meaning I ts k).or (meaning I ss k) := by
  rw [meaning, List.flatMap_append, eval_append]
  rfl

theorem meaning_cons (I : Interpretation V) (s : Slot V × Nat) (ss : List (Slot V × Nat)) (k : Text) :
    meaning I (s :: ss) k = (meaning I ss k).or (eval (writes I s) k) := by
  rw [meaning, List.flatMap_cons, eval_append]
  rfl

/-- Literals of other keys do not matter to a key. -/
theorem meaning_computedSlots (I : Interpretation V) {slots : List (Slot V × Nat)} {k : Text}
    (h : ∀ s ∈ slots, s.1.NotLiteralOf k) : meaning I (computedSlots slots) k = meaning I slots k := by
  induction slots with
  | nil => rfl
  | cons s slots ih =>
    have ih := ih fun t ht => h t (List.mem_cons_of_mem _ ht)
    obtain ⟨slot, i⟩ := s
    cases slot with
    | literal k' v =>
      have hkey : k' ≠ k := by
        rintro rfl
        exact h _ List.mem_cons_self v rfl
      have hnone : eval (writes I (.literal k' v, i)) k = none :=
        eval_eq_none fun w hw => by simpa [writes] using (List.mem_singleton.1 hw) ▸ hkey
      have hfilter : computedSlots ((.literal k' v, i) :: slots) = computedSlots slots := rfl
      rw [meaning_cons, hfilter, ih, hnone, Option.or_none]
    | named k' => exact (meaning_cons I _ (computedSlots slots) k).trans (by rw [ih, meaning_cons])
    | computed => exact (meaning_cons I _ (computedSlots slots) k).trans (by rw [ih, meaning_cons])
    | spread => exact (meaning_cons I _ (computedSlots slots) k).trans (by rw [ih, meaning_cons])

/-- Properties that do not reach a key leave it unset. -/
theorem meaning_eq_none (I : Interpretation V) {slots : List (Slot V × Nat)} {k : Text}
    (h : ∀ s ∈ slots, ∀ w ∈ writes I s, w.1 ≠ k) : meaning I slots k = none := by
  refine eval_eq_none fun w hw => ?_
  obtain ⟨s, hs, hw⟩ := List.mem_flatMap.1 hw
  exact h s hs w hw

/-- The last literal for a key, if there is one. -/
theorem exists_last_literal (k : Text) : ∀ slots : List (Slot V × Nat), (∀ s ∈ slots, s.1.NotLiteralOf k) ∨
    ∃ before after v i, slots = before ++ (.literal k v, i) :: after ∧ ∀ s ∈ after, s.1.NotLiteralOf k
  | [] => Or.inl fun _ hs => absurd hs List.not_mem_nil
  | (slot, i) :: slots => by
    rcases exists_last_literal k slots with hnone | ⟨before, after, v, j, hslots, hafter⟩
    · by_cases hslot : slot.NotLiteralOf k
      · refine Or.inl fun s hs => ?_
        rcases List.mem_cons.1 hs with rfl | hs
        · exact hslot
        · exact hnone s hs
      · obtain ⟨v, rfl⟩ : ∃ v, slot = .literal k v := by simpa [NotLiteralOf] using hslot
        exact Or.inr ⟨[], slots, v, i, rfl, hnone⟩
    · exact Or.inr ⟨(slot, i) :: before, after, v, j, by rw [hslots]; rfl, hafter⟩

/-- What an object comes to at the key of a literal that is the last one for it. -/
theorem meaning_at_literal (I : Interpretation V) {before after : List (Slot V × Nat)} {k : Text} {v : V} {i : Nat} :
    meaning I (before ++ (.literal k v, i) :: after) k = (meaning I after k).or (some v) := by
  have hset : eval (writes I (.literal k v, i)) k = some v := by
    simp [writes, eval, evalFrom, StyleMap.set]
  rw [meaning_append, meaning_cons, hset]
  cases meaning I after k <;> rfl

/-- What is computed comes to at the key of a literal that is the last one for it. -/
theorem meaning_computed_at_literal (I : Interpretation V) {before after : List (Slot V × Nat)} {k : Text} {v : V}
    {i : Nat} (hafter : ∀ s ∈ after, s.1.NotLiteralOf k) :
    meaning I (computedSlots (before ++ (.literal k v, i) :: after)) k =
      (meaning I after k).or (meaning I (computedSlots before) k) := by
  have hsplit : computedSlots (before ++ (.literal k v, i) :: after) = computedSlots before ++ computedSlots after := by
    simp [computedSlots, isLiteral]
  rw [hsplit, meaning_append, meaning_computedSlots I hafter]

theorem mem_computedSlots {slots : List (Slot V × Nat)} {s : Slot V × Nat} :
    s ∈ computedSlots slots ↔ s ∈ slots ∧ s.1.isLiteral = false := by
  simp [computedSlots]

/-- A property for which something is computed sets no key that it does not reach. -/
theorem reaches_of_writes {I : Interpretation V} {s : Slot V × Nat} {w : Text × V} (hs : s.1.isLiteral = false)
    (hw : w ∈ writes I s) : s.1.Reaches w.1 := by
  obtain ⟨slot, i⟩ := s
  cases slot with
  | literal k v => cases hs
  | named k =>
    obtain rfl : w = (k, I.value i) := by simpa [writes] using hw
    rfl
  | computed => trivial
  | spread => trivial

theorem meaning_computedSlots_eq_none (I : Interpretation V) {slots : List (Slot V × Nat)} {k : Text}
    (h : ∀ s ∈ slots, ¬s.1.Reaches k) : meaning I (computedSlots slots) k = none := by
  refine meaning_eq_none I fun s hs w hw hk => ?_
  obtain ⟨hs, hcomputed⟩ := mem_computedSlots.1 hs
  exact h s hs (hk ▸ reaches_of_writes hcomputed hw)

/-! ## Moving literals -/

/-- Moving literals to the front keeps the style if their order does not matter. -/
theorem meaning_eq_of_keepsOrder {slots : List (Slot V × Nat)} {entry : StyleMap V}
    (hentry : ∀ k, (∀ s ∈ slots, s.1.NotLiteralOf k) → entry k = none) (h : KeepsOrder slots entry)
    (I : Interpretation V) : meaning I slots = entry.override (meaning I (computedSlots slots)) := by
  funext k
  rw [StyleMap.override]
  rcases exists_last_literal k slots with hnone | ⟨before, after, v, i, rfl, hafter⟩
  · rw [meaning_computedSlots I hnone, hentry k hnone, Option.or_none]
  · rw [meaning_at_literal, meaning_computed_at_literal I hafter]
    rcases h before after k v i rfl hafter with ⟨⟨slot, j⟩, hs, rfl⟩ | ⟨hbefore, hv⟩
    · have hsome : (meaning I after k).isSome = true :=
        isSome_eval (v := I.value j) (List.mem_flatMap.2 ⟨_, hs, List.mem_singleton_self _⟩)
      obtain ⟨u, hu⟩ := Option.isSome_iff_exists.1 hsome
      rw [hu]
      rfl
    · rw [meaning_computedSlots_eq_none I hbefore, hv, Option.or_none]

/-- Another key. -/
def otherKey (k : Text) : Text := 'x' :: k

theorem otherKey_ne (k : Text) : otherKey k ≠ k := fun h => by simpa [otherKey] using congrArg List.length h

/-- An interpretation under which only those properties set a key that name it, and the one at a given place if there is
one, all of them to the same value. -/
def Interpretation.only (k : Text) (v : V) (place : Option Nat) : Interpretation V where
  value := fun _ => v
  key := fun j => if some j = place then k else otherKey k
  spread := fun j => if some j = place then [(k, v)] else []

theorem value_of_writes_only {k : Text} {v u : V} {place : Option Nat} {s : Slot V × Nat} (hs : s.1.isLiteral = false)
    (hw : (k, u) ∈ writes (.only k v place) s) : u = v := by
  obtain ⟨slot, j⟩ := s
  cases slot with
  | literal k' v' => cases hs
  | named k' => exact (by simpa [writes, Interpretation.only] using hw : k = k' ∧ u = v).2
  | computed =>
    have hw := List.mem_singleton.1 hw
    exact (Prod.mk.inj hw).2
  | spread =>
    simp only [writes, Interpretation.only] at hw
    split at hw
    · exact (Prod.mk.inj (List.mem_singleton.1 hw)).2
    · cases hw

/-- Away from the place a property sets the key only if it names it. -/
theorem key_ne_of_writes_only {k : Text} {v : V} {place : Option Nat} {s : Slot V × Nat} (hplace : some s.2 ≠ place)
    (hliteral : s.1.NotLiteralOf k) (hnamed : s.1 ≠ .named k) : ∀ w ∈ writes (.only k v place) s, w.1 ≠ k := by
  obtain ⟨slot, j⟩ := s
  intro w hw
  cases slot with
  | literal k' v' =>
    rw [List.mem_singleton.1 hw]
    rintro rfl
    exact hliteral v' rfl
  | named k' =>
    rw [List.mem_singleton.1 hw]
    exact fun hk => hnamed (congrArg Slot.named hk)
  | computed =>
    rw [List.mem_singleton.1 hw]
    simpa [Interpretation.only, hplace] using otherKey_ne k
  | spread => simp [writes, Interpretation.only, hplace] at hw

theorem writes_only_of_reaches {k : Text} (v : V) {s : Slot V × Nat} (h : s.1.Reaches k) :
    ∃ u, (k, u) ∈ writes (.only k v (some s.2)) s := by
  obtain ⟨slot, i⟩ := s
  cases slot with
  | literal k' v' => exact absurd h id
  | named k' => exact ⟨v, by rw [← show k' = k from h]; exact List.mem_singleton_self _⟩
  | computed => exact ⟨v, by simp [writes, Interpretation.only]⟩
  | spread => exact ⟨v, by simp [writes, Interpretation.only]⟩

theorem isLiteral_of_reaches {k : Text} {s : Slot V} (h : s.Reaches k) : s.isLiteral = false := by
  cases s with
  | literal k' v => exact absurd h id
  | _ => rfl

/-- **Moving literals to the front keeps the style, whatever is computed, if and only if their order does not
matter.** -/
theorem keepsOrder_iff [Nontrivial V] {slots : List (Slot V × Nat)} {entry : StyleMap V}
    (hplaces : (slots.map (·.2)).Nodup) (hentry : ∀ k, (∀ s ∈ slots, s.1.NotLiteralOf k) → entry k = none) :
    (∀ I, meaning I slots = entry.override (meaning I (computedSlots slots))) ↔ KeepsOrder slots entry := by
  refine ⟨fun h before after k v i hslots hafter => ?_, fun h I => meaning_eq_of_keepsOrder hentry h I⟩
  by_cases hnamed : ∃ s ∈ after, s.1 = .named k
  · exact Or.inl hnamed
  have hnamed : ∀ s ∈ after, s.1 ≠ .named k := fun s hs he => hnamed ⟨s, hs, he⟩
  subst hslots
  have hat : ∀ I : Interpretation V, (meaning I after k).or (some v) =
      ((meaning I after k).or (meaning I (computedSlots before) k)).or (entry k) := by
    intro I
    have := congrFun (h I) k
    rwa [StyleMap.override, meaning_at_literal, meaning_computed_at_literal I hafter] at this
  have hquiet : ∀ v' place, (∀ s ∈ after, some s.2 ≠ place) → meaning (.only k v' place) after k = none :=
    fun v' place hplace =>
      meaning_eq_none _ fun s hs => key_ne_of_writes_only (hplace s hs) (hafter s hs) (hnamed s hs)
  -- A property before the literal that reaches its key can set it to another value.
  have hbefore : ∀ s ∈ before, ¬s.1.Reaches k := by
    intro s hs hreaches
    obtain ⟨v', hv'⟩ := exists_ne v
    have hplace : ∀ t ∈ after, some t.2 ≠ some s.2 := by
      intro t ht he
      have he := Option.some.inj he
      rw [List.map_append, List.map_cons] at hplaces
      exact (List.nodup_append.1 hplaces).2.2 s.2 (List.mem_map_of_mem hs) t.2
        (List.mem_cons_of_mem _ (List.mem_map_of_mem ht)) he.symm
    have hset : meaning (.only k v' (some s.2)) (computedSlots before) k = some v' := by
      obtain ⟨u, hu⟩ := writes_only_of_reaches v' hreaches
      refine eval_eq_some ⟨u, List.mem_flatMap.2 ⟨s, mem_computedSlots.2 ⟨hs, isLiteral_of_reaches hreaches⟩, hu⟩⟩ ?_
      intro u hu
      obtain ⟨t, ht, hu⟩ := List.mem_flatMap.1 hu
      exact value_of_writes_only (mem_computedSlots.1 ht).2 hu
    have := hat (.only k v' (some s.2))
    rw [hquiet v' _ hplace, hset] at this
    exact hv' (by simpa using this.symm)
  refine Or.inr ⟨hbefore, ?_⟩
  -- With nothing computed for the key the entry must have the value of the literal.
  have := hat (.only k v none)
  rw [hquiet v none (by simp), meaning_computedSlots_eq_none _ hbefore] at this
  simpa using this.symm

end StyleHoist
