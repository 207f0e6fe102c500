/-!
# Stable sorting

Insertion sort by a Boolean order. Equal elements keep their places relative to each other, which is what edits at one
offset and elements of one depth rely on.

- `insertBy_perm`, `sortBy_perm`: sorting permutes.
-/

namespace StyleHoist

variable {α : Type}

/-- Inserts `a` before the first element that it does not come after. -/
def insertBy (le : α → α → Bool) (a : α) : List α → List α
  | [] => [a]
  | b :: bs => if le a b then a :: b :: bs else b :: insertBy le a bs

/-- Sorts by `le`, keeping the order of elements that `le` holds equal. -/
def sortBy (le : α → α → Bool) : List α → List α
  | [] => []
  | a :: as => insertBy le a (sortBy le as)

theorem insertBy_perm (le : α → α → Bool) (a : α) (bs : List α) : (insertBy le a bs).Perm (a :: bs) := by
  induction bs with
  | nil => exact List.Perm.refl _
  | cons b bs ih =>
    simp only [insertBy]
    split
    · exact List.Perm.refl _
    · exact (ih.cons b).trans (List.Perm.swap a b bs)

theorem sortBy_perm (le : α → α → Bool) (as : List α) : (sortBy le as).Perm as := by
  induction as with
  | nil => exact List.Perm.refl _
  | cons a as ih => exact (insertBy_perm le a _).trans (ih.cons a)

/-- Texts compare by their characters, the first difference deciding and a shorter text before its extensions. -/
def textLe : List Char → List Char → Bool
  | [], _ => true
  | _ :: _, [] => false
  | a :: s, b :: t => if a == b then textLe s t else a.toNat ≤ b.toNat

end StyleHoist
