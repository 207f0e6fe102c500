import StyleHoist.Text.Key

/-!
# Registries

A registry is a declaration that gathers named style entries. This module tells which of several registries takes new
entries, which names are taken, and which name comes next.

- `destination?_singleton`: a lone registry takes the entries whatever its name.
-/

namespace StyleHoist

/-- A registry in a text. -/
structure Registry where
  name : Text
  /-- What stands between the braces of its entries. -/
  body : Text
  /-- The declaration, through the closing parenthesis if one follows. -/
  range : Span
  /-- The offset of the closing brace of its entries. -/
  closeBrace : Nat
deriving DecidableEq, Repr

/-- The factory that makes a registry, which has to be imported where one is used. -/
def registryFactory : Text := "StyleSheet".toList

/-- The registry that takes new entries: a lone one, or of several the first with the preferred name. -/
def destination? (preferred : Text) : List Registry → Option Registry
  | [] => none
  | [only] => some only
  | many => many.find? (·.name == preferred)

theorem destination?_singleton (preferred : Text) (r : Registry) : destination? preferred [r] = some r := rfl

/-- The names that count as taken by entries, in order of first appearance. Keys nested in entries are among them. -/
def takenNames (registries : List Registry) : List Text :=
  distinctFrom [] (registries.flatMap fun r => keysOf r.body)

/-- The first text of a list that has come before, `seen` being those before the list. -/
def firstRepeated? (seen : List Text) : List Text → Option Text
  | [] => none
  | t :: ts => if seen.contains t then some t else firstRepeated? (t :: seen) ts

/-- The first name that more than one registry has. -/
def repeatedName? (registries : List Registry) : Option Text :=
  firstRepeated? [] (registries.map (·.name))

/-- A name with a number behind it. -/
def numbered (base : Text) (n : Nat) : Text :=
  base ++ Nat.toDigits 10 n

/-- `base` with the least positive number that makes it differ from all taken names. One of the first
`taken.length + 1` numbers does. -/
def freshName (base : Text) (taken : List Text) : Text :=
  let candidates := (List.range (taken.length + 1)).map fun i => numbered base (i + 1)
  (candidates.find? fun name => !taken.contains name).getD base

end StyleHoist
