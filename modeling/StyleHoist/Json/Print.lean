import StyleHoist.Json.Basic

/-!
# Writing JSON

Values are written on one line or, for people, with one member a line.
-/

namespace StyleHoist.Json

/-- Numbers are written in full up to sixteen digits before the point and four zeros behind it. -/
def numberLayout : DecimalLayout := ⟨16, 5⟩

/-- A number as text. -/
def numberText : JsonNumber → Text
  | .natural n => Nat.toDigits 10 n
  | .negative n => '-' :: Nat.toDigits 10 n
  | .decimal f => floatText numberLayout f

/-- A control character by its code point. -/
def controlText (n : Nat) : Text :=
  "\\u00".toList ++ [(n / 16).digitChar, (n % 16).digitChar]

/-- A character as it is written in a string. -/
def charText (c : Char) : Text :=
  if c == '\x22' || c == '\\' then ['\\', c]
  else if c == '\n' then "\\n".toList
  else if c == '\r' then "\\r".toList
  else if c == '\t' then "\\t".toList
  else if c == '\x08' then "\\b".toList
  else if c == '\x0c' then "\\f".toList
  else if c.toNat < 0x20 then controlText c.toNat
  else [c]

/-- A string with its quotes. -/
def stringText (t : Text) : Text :=
  '\x22' :: t.flatMap charText ++ ['\x22']

mutual

/-- A value on one line. -/
def compact : Json → Text
  | .null => "null".toList
  | .bool true => "true".toList
  | .bool false => "false".toList
  | .number n => numberText n
  | .string t => stringText t
  | .array items => '[' :: compactItems items ++ [']']
  | .object members => '\x7b' :: compactMembers members ++ ['\x7d']

/-- Items with commas between them. -/
def compactItems : List Json → Text
  | [] => []
  | [v] => compact v
  | v :: w :: vs => compact v ++ ',' :: compactItems (w :: vs)

/-- Members with commas between them. -/
def compactMembers : List (Text × Json) → Text
  | [] => []
  | [(k, v)] => stringText k ++ ':' :: compact v
  | (k, v) :: m :: ms => stringText k ++ ':' :: compact v ++ ',' :: compactMembers (m :: ms)

end

/-- The start of a line at a depth. -/
def lineStart (depth : Nat) : Text :=
  '\n' :: List.replicate (2 * depth) ' '

mutual

/-- A value with one item or member a line. -/
def prettyAt (depth : Nat) : Json → Text
  | .array [] => "[]".toList
  | .array (v :: vs) => '[' :: prettyItems (depth + 1) (v :: vs) ++ lineStart depth ++ [']']
  | .object [] => "\x7b\x7d".toList
  | .object (m :: ms) => '\x7b' :: prettyMembers (depth + 1) (m :: ms) ++ lineStart depth ++ ['\x7d']
  | v => compact v

/-- Items on lines of their own. -/
def prettyItems (depth : Nat) : List Json → Text
  | [] => []
  | [v] => lineStart depth ++ prettyAt depth v
  | v :: w :: vs => lineStart depth ++ prettyAt depth v ++ ',' :: prettyItems depth (w :: vs)

/-- Members on lines of their own. -/
def prettyMembers (depth : Nat) : List (Text × Json) → Text
  | [] => []
  | [(k, v)] => lineStart depth ++ stringText k ++ ": ".toList ++ prettyAt depth v
  | (k, v) :: m :: ms =>
    lineStart depth ++ stringText k ++ ": ".toList ++ prettyAt depth v ++ ',' :: prettyMembers depth (m :: ms)

end

/-- A value for people. -/
def pretty (v : Json) : Text :=
  prettyAt 0 v

end StyleHoist.Json
