import StyleHoist.Json.Lexical

/-!
# Reading JSON

A text is read as a whole, or a value at its start is passed over. Values may be nested 127 deep when they are read;
what is passed over may be nested without bound.
-/

namespace StyleHoist.Json

/-! ## Values -/

/-- How deep values may be nested, plus one. -/
def depthLimit : Nat := 128

mutual

/-- Reads a value. -/
def readValue : (fuel depth : Nat) → Text → Except JsonFault (Json × Text)
  | 0, _, _ => .error .endInValue
  | fuel + 1, depth, t =>
    match skipBlanks t with
    | [] => .error .endInValue
    | c :: t =>
      if c == 'n' then (readWord "ull".toList t).map fun t => (.null, t)
      else if c == 't' then (readWord "rue".toList t).map fun t => (.bool true, t)
      else if c == 'f' then (readWord "alse".toList t).map fun t => (.bool false, t)
      else if c == '-' then (readNumber true t).map fun p => (.number p.1, p.2)
      else if c.isDigit then (readNumber false (c :: t)).map fun p => (.number p.1, p.2)
      else if c == '\x22' then (readStringRest 0 t).map fun p => (.string p.1, p.2)
      else if c == '[' then
        if depth ≤ 1 then .error .tooDeep
        else (readItems fuel (depth - 1) true t).map fun p => (.array p.1, p.2)
      else if c == '\x7b' then
        if depth ≤ 1 then .error .tooDeep
        else (readMembers fuel (depth - 1) true [] t).map fun p => (.object p.1, p.2)
      else .error .expectedValue

/-- Reads the items of a list from the `first` or a later one on. -/
def readItems : (fuel depth : Nat) → (first : Bool) → Text → Except JsonFault (List Json × Text)
  | 0, _, _, _ => .error .endInList
  | fuel + 1, depth, first, t =>
    match skipBlanks t with
    | [] => .error .endInList
    | ']' :: t => .ok ([], t)
    | c :: t => do
      let rest ←
        if first then pure (c :: t)
        else if c == ',' then
          match skipBlanks t with
          | [] => throw .endInValue
          | ']' :: _ => throw .trailingComma
          | t => pure t
        else throw .expectedListEnd
      let (v, rest) ← readValue fuel depth rest
      let (vs, rest) ← readItems fuel depth false rest
      return (v :: vs, rest)

/-- Reads the members of an object from the `first` or a later one on, after those in `done`. -/
def readMembers : (fuel depth : Nat) → (first : Bool) → (done : List (Text × Json)) → Text →
    Except JsonFault (List (Text × Json) × Text)
  | 0, _, _, _, _ => .error .endInObject
  | fuel + 1, depth, first, done, t =>
    match skipBlanks t with
    | [] => .error .endInObject
    | '\x7d' :: t => .ok (done, t)
    | c :: t => do
      let rest ←
        if first then pure (c :: t)
        else if c == ',' then
          match skipBlanks t with
          | [] => throw .endInValue
          | '\x7d' :: _ => throw .trailingComma
          | t => pure t
        else throw .expectedObjectEnd
      match rest with
      | '\x22' :: rest =>
        let (key, rest) ← readStringRest 0 rest
        match skipBlanks rest with
        | ':' :: rest =>
          let (v, rest) ← readValue fuel depth rest
          readMembers fuel depth false (put key v done) rest
        | [] => throw .endInObject
        | _ => throw .expectedColon
      | _ => throw .keyNotString

end

/-- The value that a text is, if it is one. -/
def ofText? (t : Text) : Option Json :=
  match readValue (2 * t.length + 2) depthLimit t with
  | .ok (v, rest) => if (skipBlanks rest).isEmpty then some v else none
  | .error _ => none

/-! ## Passing over values -/

/-- Passes over a value that holds no other. Nothing is told of where a list or an object begins. -/
def passScalar (c : Char) (t : Text) : Except JsonFault Text :=
  if c == 'n' then readWord "ull".toList t
  else if c == 't' then readWord "rue".toList t
  else if c == 'f' then readWord "alse".toList t
  else if c == '-' then passNumber t
  else if c.isDigit then passNumber (c :: t)
  else if c == '\x22' then passString 0 t
  else .error .expectedValue

/-- Passes over a key and its colon. -/
def passKey (t : Text) : Except JsonFault Text :=
  match skipBlanks t with
  | '\x22' :: t => do
    match skipBlanks (← passString 0 t) with
    | ':' :: t => return t
    | [] => throw .endInObject
    | _ => throw .expectedColon
  | [] => .error .endInObject
  | _ => .error .keyNotString

/-- What a reader that passes over a value is to read next. -/
inductive Passing
  | value
  /-- What follows an item or member. -/
  | afterItem

/-- Passes over the rest of nested values, the innermost open list or object first in `nest`; `true` stands for an
object. Every two steps take a character, so twice the length of the text is fuel enough. -/
def passNested : (fuel : Nat) → (nest : List Bool) → Passing → Text → Except JsonFault Text
  | 0, _, _, _ => .error .endInValue
  | fuel + 1, nest, .value, t =>
    match skipBlanks t with
    | [] => .error .endInValue
    | '[' :: t =>
      match skipBlanks t with
      | [] => .error .endInList
      | ']' :: t => passNested fuel nest .afterItem t
      | t => passNested fuel (false :: nest) .value t
    | '\x7b' :: t =>
      match skipBlanks t with
      | [] => .error .endInObject
      | '\x7d' :: t => passNested fuel nest .afterItem t
      | t => do passNested fuel (true :: nest) .value (← passKey t)
    | c :: t => do passNested fuel nest .afterItem (← passScalar c t)
  | _ + 1, [], .afterItem, t => .ok t
  | fuel + 1, isObject :: nest, .afterItem, t =>
    match skipBlanks t with
    | [] => .error (if isObject then .endInObject else .endInList)
    | c :: t =>
      if c == ',' then do
        passNested fuel (isObject :: nest) .value (← if isObject then passKey t else pure t)
      else if c == (if isObject then '\x7d' else ']') then passNested fuel nest .afterItem t
      else .error (if isObject then .expectedObjectEnd else .expectedListEnd)

/-- Passes over a value at the start of a text. -/
def passValue (t : Text) : Except JsonFault Text :=
  passNested (2 * t.length + 2) [] .value t

end StyleHoist.Json
