import StyleHoist.Script.Token
import StyleHoist.Text.Identifier

/-!
# Scanning

How the next token of a script is found at the start of a text. What a text means at one place can depend on the
grammar: a slash may divide or begin a regular expression, and text between markup tags is no code. Each reading
therefore has a scanner of its own, and the grammar chooses.

A scan never fails. It finds the token `bad` where nothing can be read, and it marks a token as faulty where a reader
goes on after complaining, as for a number with a misplaced separator.
-/

namespace StyleHoist.Script

/-- What a scan finds: a token, the bytes it takes, the text after it, and whether the token is faulty. -/
structure Scanned where
  token : Token
  bytes : Nat
  rest : Text
  faulty : Bool := false

/-! ## Characters -/

/-- Characters that end a line. -/
def isLineEnd (c : Char) : Bool :=
  c == '\n' || c == '\r' || c == '\u2028' || c == '\u2029'

/-- Characters other than line ends that may stand between tokens. -/
def isSpace (c : Char) : Bool :=
  let n := c.toNat
  n == 0x20 || n == 9 || n == 11 || n == 12 || n == 0xa0 || n == 0xfeff || n == 0x1680 || (0x2000 ≤ n && n ≤ 0x200a)
    || n == 0x202f || n == 0x205f || n == 0x3000

/-- The value of a digit in bases up to sixteen. -/
def digitValue (c : Char) : Option Nat :=
  if c.isDigit then some (c.toNat - 48)
  else if 'a' ≤ c && c ≤ 'f' then some (c.toNat - 87)
  else if 'A' ≤ c && c ≤ 'F' then some (c.toNat - 55)
  else none

/-- Whether `c` is a digit in the given base. -/
def isDigitIn (base : Nat) (c : Char) : Bool :=
  (digitValue c).any (· < base)

/-- Whether a text begins with a character that satisfies `p`. -/
def startsWhere (p : Char → Bool) : Text → Bool
  | [] => false
  | c :: _ => p c

/-- Takes characters while they satisfy `p`, adding their bytes to `n`. -/
def takeBytes (p : Char → Bool) : Nat → Text → Nat × Text
  | n, [] => (n, [])
  | n, c :: t => if p c then takeBytes p (n + c.utf8Size) t else (n, c :: t)

/-! ## Gaps between tokens -/

/-- What stands between two tokens: its bytes, whether a line ends in it, and whether it is faulty. -/
structure Gap where
  bytes : Nat
  newline : Bool
  faulty : Bool
  rest : Text

/-- The kind of gap that a scan is inside of. -/
inductive GapPart
  | blank
  | lineComment
  | blockComment

/-- Skips blanks and comments. A comment in the markup notation hides the rest of its line and is faulty, as is a block
comment that never ends. -/
def skipGap : GapPart → Nat → Bool → Bool → Text → Gap
  | .blockComment, n, nl, _, [] => ⟨n, nl, true, []⟩
  | _, n, nl, bad, [] => ⟨n, nl, bad, []⟩
  | .blank, n, nl, bad, '/' :: '/' :: t => skipGap .lineComment (n + 2) nl bad t
  | .blank, n, nl, bad, '/' :: '*' :: t => skipGap .blockComment (n + 2) nl bad t
  | .blank, n, nl, _, '<' :: '!' :: '-' :: '-' :: t => skipGap .lineComment (n + 4) nl true t
  | .blockComment, n, nl, bad, '*' :: '/' :: t => skipGap .blank (n + 2) nl bad t
  | .blank, n, nl, bad, c :: t =>
    if isLineEnd c then skipGap .blank (n + c.utf8Size) true bad t
    else if isSpace c then skipGap .blank (n + c.utf8Size) nl bad t
    else if nl && Text.beginsWith "-->".toList (c :: t) then skipGap .lineComment (n + c.utf8Size) nl true t
    else ⟨n, nl, bad, c :: t⟩
  | .lineComment, n, nl, bad, c :: t =>
    if isLineEnd c then skipGap .blank (n + c.utf8Size) true bad t
    else skipGap .lineComment (n + c.utf8Size) nl bad t
  | .blockComment, n, nl, bad, c :: t => skipGap .blockComment (n + c.utf8Size) (nl || isLineEnd c) bad t

/-! ## Numbers -/

/-- A run of digits: its bytes, whether it holds a digit, whether a separator stands anywhere but between two digits. -/
structure Digits where
  bytes : Nat
  any : Bool
  faulty : Bool
  rest : Text

/-- Reads digits of a base with separators between them. -/
def scanDigits (base : Nat) : Nat → Bool → Bool → Bool → Text → Digits
  | n, any, bad, _, [] => ⟨n, any, bad, []⟩
  | n, any, bad, afterDigit, c :: t =>
    if isDigitIn base c then scanDigits base (n + 1) true bad true t
    else if c == '_' then scanDigits base (n + 1) any (bad || !afterDigit || !startsWhere (isDigitIn base) t) false t
    else ⟨n, any, bad, c :: t⟩

/-- A number must not run into a word. -/
def endNumber (s : Scanned) : Scanned :=
  if startsWhere isIdStart s.rest then { s with token := .bad } else s

/-- Reads an exponent, if there is one. -/
def scanExponent (n : Nat) (faulty : Bool) (t : Text) : Scanned :=
  match t with
  | e :: t' =>
    if e == 'e' || e == 'E' then
      let (n, t') :=
        match t' with
        | s :: t'' => if s == '+' || s == '-' then (n + 2, t'') else (n + 1, t')
        | [] => (n + 1, [])
      let d := scanDigits 10 n false faulty false t'
      if d.any then endNumber ⟨.number, d.bytes, d.rest, d.faulty⟩ else ⟨.bad, d.bytes, d.rest, true⟩
    else endNumber ⟨.number, n, t, faulty⟩
  | [] => ⟨.number, n, [], faulty⟩

/-- Reads what may follow the integer part of a decimal number. -/
def scanFraction (n : Nat) (faulty : Bool) (t : Text) : Scanned :=
  match t with
  | '.' :: t' =>
    let d := scanDigits 10 (n + 1) false faulty false t'
    scanExponent d.bytes d.faulty d.rest
  | 'n' :: t' => if n == 0 then scanExponent n faulty t else endNumber ⟨.bigint, n + 1, t', faulty⟩
  | _ => scanExponent n faulty t

/-- Reads a number in a base that its marker names. -/
def scanRadix (base : Nat) (t : Text) : Scanned :=
  let d := scanDigits base 2 false false false t
  if !d.any then ⟨.bad, d.bytes, d.rest, true⟩
  else
    match d.rest with
    | 'n' :: t' => endNumber ⟨.bigint, d.bytes + 1, t', d.faulty⟩
    | _ => endNumber ⟨.number, d.bytes, d.rest, d.faulty⟩

/-- Reads a number. A zero before further digits makes it faulty, and octal if none of them is eight or nine. -/
def scanNumber (t : Text) : Scanned :=
  match t with
  | '0' :: x :: t' =>
    if x == 'x' || x == 'X' then scanRadix 16 t'
    else if x == 'o' || x == 'O' then scanRadix 8 t'
    else if x == 'b' || x == 'B' then scanRadix 2 t'
    else
      let d := scanDigits 10 0 false false false t
      if x.isDigit || x == '_' then
        if (x :: t').takeWhile (fun c => c.isDigit) |>.all (fun c => isDigitIn 8 c) then
          endNumber ⟨.number, d.bytes, d.rest, true⟩
        else scanFraction d.bytes true d.rest
      else scanFraction d.bytes d.faulty d.rest
  | _ =>
    let d := scanDigits 10 0 false false false t
    scanFraction d.bytes d.faulty d.rest

/-! ## Escapes -/

/-- Where in an escape sequence a scan stands. -/
inductive EscapePart
  | none
  /-- Just after the backslash. -/
  | opened
  /-- After an escaped carriage return. -/
  | carriage
  /-- After an escaped zero. -/
  | zero
  /-- This many hexadecimal digits are still due. -/
  | hex (due : Nat)
  /-- After the `u`. -/
  | unicode
  /-- Inside braces, after digits of this value. -/
  | braced (value : Nat) (any : Bool)
deriving DecidableEq

/-- What a character does to an escape sequence. -/
inductive EscapeStep
  /-- It belongs to the sequence; `outdated` marks those that only old scripts may hold. -/
  | taken (next : EscapePart) (outdated : Bool)
  /-- It stands after the end of the sequence. -/
  | released
  /-- It cannot stand here. -/
  | rejected

/-- Reads one more character of an escape sequence. -/
def EscapePart.step (part : EscapePart) (c : Char) : EscapeStep :=
  match part with
  | .none => .released
  | .opened =>
    if c == 'x' then .taken (.hex 2) false
    else if c == 'u' then .taken .unicode false
    else if c == '0' then .taken .zero false
    else if '1' ≤ c && c ≤ '7' then .taken .none true
    else if c == '\r' then .taken .carriage false
    else .taken .none false
  | .carriage => if c == '\n' then .taken .none false else .released
  | .zero => if isDigitIn 8 c then .taken .none true else .released
  | .hex due =>
    if isDigitIn 16 c then .taken (if due ≤ 1 then .none else .hex (due - 1)) false else .rejected
  | .unicode =>
    if c == '\x7b' then .taken (.braced 0 false) false
    else if isDigitIn 16 c then .taken (.hex 3) false
    else .rejected
  | .braced value any =>
    match digitValue c with
    | .some d => if value * 16 + d ≤ 0x10ffff then .taken (.braced (value * 16 + d) true) false else .rejected
    | .none => if c == '\x7d' && any then .taken .none false else .rejected

/-! ## Strings, templates and regular expressions -/

/-- Reads a string up to its closing quote. A string that does not end on its line is faulty. -/
def scanString (quote : Char) : EscapePart → Bool → Nat → Text → Scanned
  | part, _, n, [] => ⟨if part = .opened then .bad else .string, n, [], true⟩
  | part, faulty, n, c :: t =>
    match part.step c with
    | .taken next outdated => scanString quote next (faulty || outdated) (n + c.utf8Size) t
    | .rejected => ⟨.bad, n, c :: t, true⟩
    | .released =>
      if c == quote then ⟨.string, n + c.utf8Size, t, faulty⟩
      else if c == '\n' || c == '\r' then ⟨.string, n, c :: t, true⟩
      else scanString quote (if c == '\\' then .opened else .none) faulty (n + c.utf8Size) t

/-- Reads a piece of a template literal up to the next substitution or the closing backtick. -/
def scanTemplate : EscapePart → Bool → Nat → Text → Scanned
  | _, _, n, [] => ⟨.bad, n, [], true⟩
  | part, ok, n, c :: t =>
    match part.step c with
    | .taken next outdated => scanTemplate next (ok && !outdated) (n + c.utf8Size) t
    | step =>
      let ok := ok && (match step with | .rejected => false | _ => true)
      if c == '\x60' then ⟨.templatePiece true ok, n + 1, t, false⟩
      else if c == '$' && startsWhere (· == '\x7b') t then ⟨.templatePiece false ok, n + 2, t.tail, false⟩
      else scanTemplate (if c == '\\' then .opened else .none) ok (n + c.utf8Size) t

/-- Flags of a regular expression: known ones, each at most once. -/
def regexFlagsOk : Text → Bool
  | [] => true
  | c :: t => "dgimsuvy".toList.contains c && !t.contains c && regexFlagsOk t

/-- Reads a regular expression after its opening slash; a slash in a character class does not end it. -/
def scanRegex (inClass escaped : Bool) : Nat → Text → Scanned
  | n, [] => ⟨.bad, n, [], true⟩
  | n, c :: t =>
    if isLineEnd c then ⟨.bad, n, c :: t, true⟩
    else if escaped then scanRegex inClass false (n + c.utf8Size) t
    else if c == '/' && !inClass then
      let (m, rest) := takeBytes isIdContinue (n + 1) t
      ⟨.regex, m, rest, !regexFlagsOk (t.takeWhile isIdContinue)⟩
    else scanRegex (c == '[' || (inClass && c != ']')) (c == '\\') (n + c.utf8Size) t

/-! ## Words -/

/-- Where in an escaped character of a word a scan stands. -/
inductive WordPart
  | plain
  | opened
  | unicode
  | hex (due value : Nat)
  | braced (value : Nat) (any : Bool)

/-- The token of a finished word; an escaped word plays no part in the grammar. -/
def wordToken (name : Text) (escaped : Bool) : Token :=
  .word (if escaped then .plain else Role.ofWord name) name

/-- Reads a word, `name` being its characters so far in reverse. -/
def scanWord : WordPart → Text → Bool → Bool → Nat → Text → Scanned
  | .plain, name, esc, faulty, n, [] => ⟨wordToken name.reverse esc, n, [], faulty⟩
  | _, _, _, _, n, [] => ⟨.bad, n, [], true⟩
  | .plain, name, esc, faulty, n, c :: t =>
    if c == '\\' then scanWord .opened name true faulty (n + 1) t
    else if isIdContinue c then scanWord .plain (c :: name) esc faulty (n + c.utf8Size) t
    else ⟨wordToken name.reverse esc, n, c :: t, faulty || (esc && (Role.ofWord name.reverse).isReserved)⟩
  | .opened, name, esc, faulty, n, c :: t =>
    if c == 'u' then scanWord .unicode name esc faulty (n + 1) t else ⟨.bad, n, c :: t, true⟩
  | .unicode, name, esc, faulty, n, c :: t =>
    if c == '\x7b' then scanWord (.braced 0 false) name esc faulty (n + 1) t
    else
      match digitValue c with
      | some d => scanWord (.hex 3 d) name esc faulty (n + 1) t
      | none => ⟨.bad, n, c :: t, true⟩
  | .hex due value, name, esc, faulty, n, c :: t =>
    match digitValue c with
    | some d =>
      let v := value * 16 + d
      if due ≤ 1 then scanWord .plain (Char.ofNat v :: name) esc (faulty || !isIdContinue (Char.ofNat v)) (n + 1) t
      else scanWord (.hex (due - 1) v) name esc faulty (n + 1) t
    | none => ⟨.bad, n, c :: t, true⟩
  | .braced value any, name, esc, faulty, n, c :: t =>
    match digitValue c with
    | some d =>
      if value * 16 + d ≤ 0x10ffff then scanWord (.braced (value * 16 + d) true) name esc faulty (n + 1) t
      else ⟨.bad, n, c :: t, true⟩
    | none =>
      if c == '\x7d' && any then
        scanWord .plain (Char.ofNat value :: name) esc (faulty || !isIdContinue (Char.ofNat value)) (n + 1) t
      else ⟨.bad, n, c :: t, true⟩

/-! ## Tokens -/

/-- Reads a token of code. The text begins with it. -/
def scanCode (t : Text) : Scanned :=
  match t with
  | [] => ⟨.endOfText, 0, [], false⟩
  | c :: t' =>
    if isIdStart c || c == '\\' then scanWord .plain [] false false 0 t
    else if c.isDigit || (c == '.' && startsWhere (fun d => d.isDigit) t') then scanNumber t
    else if c == '\x22' || c == '\x27' then scanString c .none false 1 t'
    else
      match Punct.ofText punctTable t with
      | some (.optional, n, rest) =>
        if startsWhere (fun d => d.isDigit) rest then ⟨.punct .question, 1, t', false⟩
        else ⟨.punct .optional, n, rest, false⟩
      | some (p, n, rest) => ⟨.punct p, n, rest, false⟩
      | none => ⟨.bad, 0, t, true⟩

/-- Reads the text between markup tags. A closing bracket or brace in it is faulty. -/
def scanMarkupText : Bool → Nat → Text → Scanned
  | faulty, n, [] => ⟨.markupText, n, [], faulty⟩
  | faulty, n, c :: t =>
    if c == '<' || c == '\x7b' then ⟨.markupText, n, c :: t, faulty⟩
    else scanMarkupText (faulty || c == '>' || c == '\x7d') (n + c.utf8Size) t

/-- Reads the string of a markup attribute after its quote; it has no escapes and may span lines. -/
def scanMarkupString (quote : Char) : Nat → Text → Scanned
  | n, [] => ⟨.string, n, [], true⟩
  | n, c :: t => if c == quote then ⟨.string, n + 1, t, false⟩ else scanMarkupString quote (n + c.utf8Size) t

/-- Reads a markup name, which may hold hyphens. -/
def scanMarkupName (t : Text) : Scanned :=
  let p := fun c => isIdContinue c || c == '-'
  let (n, rest) := takeBytes p 0 t
  ⟨.word .plain (t.takeWhile p), n, rest, false⟩

end StyleHoist.Script
