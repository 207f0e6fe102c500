import StyleHoist.Decimal.Shortest
import StyleHoist.Text.Basic

/-!
# JSON values

The values that settings files and hosts exchange. Objects keep their members in order and hold each key once.

- `get?_put`: a member that has been put is found.
-/

namespace StyleHoist

/-- A number. Whole numbers of at most 64 bits are kept exactly. -/
inductive JsonNumber
  | natural (n : Nat)
  /-- Minus a positive whole number. -/
  | negative (n : Nat)
  | decimal (f : Float)

/-- A JSON value. -/
inductive Json
  | null
  | bool (b : Bool)
  | number (n : JsonNumber)
  | string (t : Text)
  | array (items : List Json)
  | object (members : List (Text × Json))

namespace Json

/-- The member of a key. -/
def get? (key : Text) : List (Text × Json) → Option Json
  | [] => none
  | (k, v) :: rest => if k == key then some v else get? key rest

/-- Gives a key a value, in its old place if the key is there already. -/
def put (key : Text) (value : Json) : List (Text × Json) → List (Text × Json)
  | [] => [(key, value)]
  | (k, v) :: rest => if k == key then (k, value) :: rest else (k, v) :: put key value rest

theorem get?_put (key : Text) (value : Json) (members : List (Text × Json)) :
    get? key (put key value members) = some value := by
  induction members with
  | nil => simp [put, get?]
  | cons m rest ih =>
    obtain ⟨k, v⟩ := m
    by_cases h : k == key <;> simp [put, get?, h, ih]

/-- The value of a number of characters. -/
def ofNat (n : Nat) : Json :=
  .number (.natural n)

/-- A value that may be missing. -/
def ofOption (value : Option Json) : Json :=
  value.getD .null

/-- A text written in the program. -/
def ofString (s : String) : Json :=
  .string s.toList

/-- An object whose keys are written in the program. -/
def ofMembers (members : List (String × Json)) : Json :=
  .object (members.map fun m => (m.1.toList, m.2))

end Json

end StyleHoist
