/-!
# Sets of characters

A set of characters is written as the ascending code points at which membership changes: the first begins the set, the
second ends it, the third begins it again.
-/

namespace StyleHoist

/-- A set of characters, given by the code points at which membership changes. -/
structure CharSet where
  bounds : List Nat

namespace CharSet

/-- Whether `n` lies in the set whose remaining changes are given, when membership is `inside` before the first. -/
def memberAfter : List Nat → Bool → Nat → Bool
  | [], inside, _ => inside
  | b :: bs, inside, n => if n < b then inside else memberAfter bs (!inside) n

/-- Whether the set holds `c`. -/
def contains (s : CharSet) (c : Char) : Bool :=
  memberAfter s.bounds false c.toNat

end CharSet

end StyleHoist
