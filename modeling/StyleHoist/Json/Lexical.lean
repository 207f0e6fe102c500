import StyleHoist.Json.Basic

/-!
# The parts of JSON texts

Blanks, words, strings and numbers at the start of a text. Each reader gives what it has read and what follows, or the
fault that a reader who goes from left to right meets first.
-/

namespace StyleHoist

/-- Why a text is no JSON text. -/
inductive JsonFault
  | endInList
  | endInObject
  | endInString
  | endInValue
  | expectedColon
  | expectedListEnd
  | expectedObjectEnd
  | expectedWord
  | expectedValue
  | invalidEscape
  | invalidNumber
  | numberOutOfRange
  | controlCharacter
  | keyNotString
  | loneSurrogate
  | brokenSurrogatePair
  | trailingComma
  | trailingCharacters
  | tooDeep
deriving DecidableEq, Repr

/-- What a user is told. -/
def JsonFault.message : JsonFault → String
  | .endInList => "EOF while parsing a list"
  | .endInObject => "EOF while parsing an object"
  | .endInString => "EOF while parsing a string"
  | .endInValue => "EOF while parsing a value"
  | .expectedColon => "expected \x60:\x60"
  | .expectedListEnd => "expected \x60,\x60 or \x60]\x60"
  | .expectedObjectEnd => "expected \x60,\x60 or \x60\x7d\x60"
  | .expectedWord => "expected ident"
  | .expectedValue => "expected value"
  | .invalidEscape => "invalid escape"
  | .invalidNumber => "invalid number"
  | .numberOutOfRange => "number out of range"
  | .controlCharacter => "control character (\\u0000-\\u001F) found while parsing a string"
  | .keyNotString => "key must be a string"
  | .loneSurrogate => "lone leading surrogate in hex escape"
  | .brokenSurrogatePair => "unexpected end of hex escape"
  | .trailingComma => "trailing comma"
  | .trailingCharacters => "trailing characters"
  | .tooDeep => "recursion limit exceeded"

namespace Json

/-! ## Blanks and words -/

/-- The blanks of JSON. -/
def isBlank (c : Char) : Bool :=
  c == ' ' || c == '\n' || c == '\t' || c == '\r'

/-- The text without blanks at its start. -/
def skipBlanks (t : Text) : Text :=
  t.dropWhile isBlank

/-- Reads a word. -/
def readWord : (word t : Text) → Except JsonFault Text
  | [], t => .ok t
  | _ :: _, [] => .error .endInValue
  | w :: ws, c :: t => if w == c then readWord ws t else .error .expectedWord

/-! ## Strings -/

/-- The value of a hexadecimal digit. -/
def hexValue? (c : Char) : Option Nat :=
  if c.isDigit then some (c.toNat - '0'.toNat)
  else if 'a' ≤ c && c ≤ 'f' then some (c.toNat - 'a'.toNat + 10)
  else if 'A' ≤ c && c ≤ 'F' then some (c.toNat - 'A'.toNat + 10)
  else none

/-- Reads four hexadecimal digits. -/
def readHex4 (t : Text) : Except JsonFault Nat :=
  if Text.size (t.take 4) < 4 then .error .endInString
  else
    match (t.take 4).mapM hexValue? with
    | some [a, b, c, d] => .ok (((a * 16 + b) * 16 + c) * 16 + d)
    | _ => .error .invalidEscape

/-- Whether a code unit begins a surrogate pair. -/
def isHighSurrogate (n : Nat) : Bool :=
  0xd800 ≤ n && n ≤ 0xdbff

/-- Whether a code unit ends a surrogate pair. -/
def isLowSurrogate (n : Nat) : Bool :=
  0xdc00 ≤ n && n ≤ 0xdfff

/-- Reads the second half of a surrogate pair, an escape of its own. -/
def readLowSurrogate : Text → Except JsonFault Nat
  | [] => .error .endInString
  | ['\\'] => .error .endInString
  | '\\' :: 'u' :: t => do
    let n ← readHex4 t
    if isLowSurrogate n then return n else throw .loneSurrogate
  | _ => .error .brokenSurrogatePair

/-- The character of an escape by code units, and how many characters the escape has after its letter. -/
def readCodeUnits (t : Text) : Except JsonFault (Char × Nat) := do
  let n ← readHex4 t
  if isLowSurrogate n then throw .loneSurrogate
  if isHighSurrogate n then
    let m ← readLowSurrogate (t.drop 4)
    return (Char.ofNat (0x10000 + (n - 0xd800) * 0x400 + (m - 0xdc00)), 10)
  return (Char.ofNat n, 4)

/-- The character that a letter behind a backslash stands for. -/
def escapedChar? (c : Char) : Option Char :=
  if c == '\x22' || c == '\\' || c == '/' then some c
  else if c == 'b' then some '\x08'
  else if c == 'f' then some '\x0c'
  else if c == 'n' then some '\n'
  else if c == 'r' then some '\r'
  else if c == 't' then some '\t'
  else none

/-- The character of an escape, and how many characters the escape has after its backslash. -/
def readEscape : Text → Except JsonFault (Char × Nat)
  | [] => .error .endInString
  | 'u' :: t => (readCodeUnits t).map fun p => (p.1, p.2 + 1)
  | c :: _ =>
    match escapedChar? c with
    | some d => .ok (d, 1)
    | none => .error .invalidEscape

/-- Reads a string after its opening quote and after the first `skip` characters. -/
def readStringRest : (skip : Nat) → Text → Except JsonFault (Text × Text)
  | _, [] => .error .endInString
  | skip + 1, _ :: t => readStringRest skip t
  | 0, c :: t =>
    if c == '\x22' then .ok ([], t)
    else if c == '\\' then do
      let (d, n) ← readEscape t
      let (s, rest) ← readStringRest n t
      return (d :: s, rest)
    else if c.toNat < 0x20 then .error .controlCharacter
    else do
      let (s, rest) ← readStringRest 0 t
      return (c :: s, rest)

/-- Checks an escape in a string that is passed over; its code units may be anything. -/
def passEscape : Text → Except JsonFault Nat
  | [] => .error .endInString
  | 'u' :: t => (readHex4 t).map fun _ => 5
  | c :: _ => if (escapedChar? c).isSome then .ok 1 else .error .invalidEscape

/-- Passes over a string after its opening quote and after the first `skip` characters. -/
def passString : (skip : Nat) → Text → Except JsonFault Text
  | _, [] => .error .endInString
  | skip + 1, _ :: t => passString skip t
  | 0, c :: t =>
    if c == '\x22' then .ok t
    else if c == '\\' then do passString (← passEscape t) t
    else if c.toNat < 0x20 then .error .controlCharacter
    else passString 0 t

/-! ## Numbers -/

/-- Digits of a number are gathered as long as they fit into 64 bits; `dropped` counts those that came after. -/
structure Gathered where
  value : Nat
  kept : Nat
  dropped : Nat

/-- Takes one digit more. -/
def Gathered.push (g : Gathered) (c : Char) : Gathered :=
  let next := g.value * 10 + (c.toNat - '0'.toNat)
  if g.dropped = 0 && next < UInt64.size then { g with value := next, kept := g.kept + 1 }
  else { g with dropped := g.dropped + 1 }

/-- Takes digits to those that a number has already. -/
def gather (value : Nat) (digits : Text) : Gathered :=
  digits.foldl Gathered.push ⟨value, 0, 0⟩

/-- A power of ten. -/
def powerOfTen (n : Nat) : Float :=
  Float.ofScientific 1 false n

/-- Multiplies by a power of ten, dividing step by step where it is a very small one. -/
def scale : (steps : Nat) → Float → Int → Except JsonFault Float
  | 0, f, _ => .ok f
  | steps + 1, f, e =>
    if 308 < e then if f == 0 then .ok f else .error .numberOutOfRange
    else if 0 ≤ e then
      let g := f * powerOfTen e.toNat
      if g.isInf then .error .numberOutOfRange else .ok g
    else if -308 ≤ e then .ok (f / powerOfTen (-e).toNat)
    else if f == 0 then .ok f
    else scale steps (f / powerOfTen 308) (e + 308)

/-- The double of a sign, digits and an exponent. A number below all doubles is zero after three steps. -/
def doubleOf (negative : Bool) (value : Nat) (exponent : Int) : Except JsonFault Float :=
  (scale 4 (Float.ofNat value) exponent).map fun f => if negative then -f else f

/-- Reads digits, at least one. -/
def readDigits (t : Text) : Except JsonFault (Text × Text) :=
  match t with
  | [] => .error .endInValue
  | c :: _ => if c.isDigit then .ok (t.takeWhile Char.isDigit, t.dropWhile Char.isDigit) else .error .invalidNumber

/-- Reads the exponent of a number after its letter. An exponent of more than 31 bits is too large, or makes zero. -/
def readExponent (negative : Bool) (value : Nat) (start : Int) (t : Text) : Except JsonFault (JsonNumber × Text) := do
  let (down, t) :=
    match t with
    | '+' :: t => (false, t)
    | '-' :: t => (true, t)
    | t => (false, t)
  let (digits, rest) ← readDigits t
  let e := digits.foldl (fun n c => n * 10 + (c.toNat - '0'.toNat)) 0
  if 0x80000000 ≤ e then
    if value ≠ 0 && !down then throw .numberOutOfRange
    return (.decimal (if negative then -0.0 else 0.0), rest)
  return (.decimal (← doubleOf negative value (if down then start - Int.ofNat e else start + Int.ofNat e)), rest)

/-- Reads what follows the digits of a number. -/
def readScale (negative : Bool) (value : Nat) (exponent : Int) (t : Text) : Except JsonFault (JsonNumber × Text) :=
  match t with
  | 'e' :: t | 'E' :: t => readExponent negative value exponent t
  | t => (doubleOf negative value exponent).map fun f => (.decimal f, t)

/-- A whole number. Minus zero, and what does not fit into 64 bits with its sign, is a double. -/
def wholeNumber (negative : Bool) (value : Nat) : JsonNumber :=
  if !negative then .natural value
  else if value = 0 || 0x8000000000000000 < value then .decimal (-Float.ofNat value)
  else .negative value

/-- Reads a number after its sign. -/
def readNumber (negative : Bool) (t : Text) : Except JsonFault (JsonNumber × Text) := do
  let (digits, rest) ← readDigits t
  if digits.head? = some '0' && digits.length ≠ 1 then throw .invalidNumber
  let whole := gather 0 digits
  match rest with
  | '.' :: t =>
    let (digits, rest) ← readDigits t
    let all := gather whole.value digits
    readScale negative all.value (Int.ofNat whole.dropped - Int.ofNat all.kept) rest
  | 'e' :: _ | 'E' :: _ => readScale negative whole.value whole.dropped rest
  | _ =>
    if whole.dropped = 0 then return (wholeNumber negative whole.value, rest)
    else return (.decimal (← doubleOf negative whole.value whole.dropped), rest)

/-- Passes over digits, at least one. -/
def passDigits (t : Text) : Except JsonFault Text :=
  if (t.head?).any Char.isDigit then .ok (t.dropWhile Char.isDigit) else .error .invalidNumber

/-- Passes over the exponent of a number. -/
def passExponent (t : Text) : Except JsonFault Text :=
  match t with
  | 'e' :: '+' :: t | 'e' :: '-' :: t | 'E' :: '+' :: t | 'E' :: '-' :: t => passDigits t
  | 'e' :: t | 'E' :: t => passDigits t
  | t => .ok t

/-- Passes over a number after its sign. -/
def passNumber (t : Text) : Except JsonFault Text := do
  let rest ← passDigits t
  if t.head? = some '0' && rest.length + 1 ≠ t.length then throw .invalidNumber
  match rest with
  | '.' :: t => passExponent (← passDigits t)
  | t => passExponent t

end Json

end StyleHoist
