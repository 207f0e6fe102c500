import StyleHoist.Script.Node
import StyleHoist.Script.Scan

/-!
# Reading a script

The state of a reader of a script, and the steps from which the grammar is built. A reader looks at one token at a time.
It fails at a fault that it cannot get over; at a lesser fault it notes that the script is flawed and goes on.

- `attempt_ok`, `attempt_error`: an attempt never fails, and one that comes to nothing leaves the reader where it was.
-/

namespace StyleHoist.Script

/-- A token in its place. -/
structure Lexeme where
  token : Token
  span : Span
  /-- Whether a line ends between this token and the one before. -/
  newline : Bool
  faulty : Bool
  /-- The text from the first character of the token on. -/
  here : Text
  /-- The text after the token. -/
  rest : Text

/-- What the surroundings of a token allow. -/
structure Surroundings where
  /-- Markup may stand where a value may. -/
  markup : Bool
  /-- Lesser faults are not noted. -/
  quiet : Bool := false
  inFunction : Bool := false
  inAsync : Bool := false
  inGenerator : Bool := false
  inParameters : Bool := false
  inClassField : Bool := false
  inStaticBlock : Bool := false
  inDeclaration : Bool := false
  /-- In the first value of the head of a loop. -/
  inLoopHead : Bool := false
  /-- The operator `in` may be used. -/
  allowIn : Bool := true
  /-- Between the question mark and the end of a conditional. -/
  inConditional : Bool := false
  /-- Between the question mark and the colon of a conditional. -/
  colonDue : Bool := false
  /-- A conditional type may not stand here. -/
  plainTypes : Bool := false
  breakAllowed : Bool := false
  continueAllowed : Bool := false
  labels : List Text := []

/-- The state of a reader. -/
structure State where
  lexeme : Lexeme
  /-- Where the token before ended. -/
  lastStop : Nat
  around : Surroundings
  /-- Where a value may turn out to be the parameters of a function. -/
  arrowStart : Option Nat := none
  flawed : Bool := false

/-- A fault that ends a reading: the offset of the token that could not be read. -/
structure Fault where
  offset : Nat
deriving DecidableEq, Repr

/-- A step of reading. -/
abbrev Read := EStateM Fault State

/-! ## Scanning in place -/

/-- Where a scan takes a token from. -/
inductive Scanner
  | code
  | templatePiece
  | markupText
  /-- The bracket at which text between markup tags ends. -/
  | markupBracket
  /-- The value of a markup attribute. -/
  | markupValue

/-- The token found by a scanner from an offset on. -/
def Scanner.lexeme (scanner : Scanner) (offset : Nat) (t : Text) : Lexeme :=
  match scanner with
  | .templatePiece =>
    let s := scanTemplate .none true 0 t
    ⟨s.token, ⟨offset, offset + s.bytes⟩, false, s.faulty, t, s.rest⟩
  | .markupText =>
    let s := scanMarkupText false 0 t
    ⟨s.token, ⟨offset, offset + s.bytes⟩, false, s.faulty, t, s.rest⟩
  | .markupBracket =>
    let s := scanCode t
    ⟨s.token, ⟨offset, offset + s.bytes⟩, false, s.faulty, t, s.rest⟩
  | _ =>
    let gap := skipGap .blank 0 (offset == 0) false t
    let s :=
      match scanner, gap.rest with
      | .markupValue, c :: t' => if c == '\x22' || c == '\x27' then scanMarkupString c 1 t' else scanCode (c :: t')
      | _, t' => scanCode t'
    let start := offset + gap.bytes
    ⟨s.token, ⟨start, start + s.bytes⟩, gap.newline, gap.faulty || s.faulty, gap.rest, s.rest⟩

/-- Goes to the next token, noting whether the current one was faulty. -/
def State.advance (s : State) (scanner : Scanner := .code) : State :=
  { s with
    lexeme := scanner.lexeme s.lexeme.span.stop s.lexeme.rest
    lastStop := s.lexeme.span.stop
    flawed := s.flawed || (s.lexeme.faulty && !s.around.quiet) }

/-- A reader that starts at an offset, with the text from there on. -/
def State.startingAt (offset : Nat) (t : Text) (around : Surroundings) : State where
  lexeme := Scanner.code.lexeme offset t
  lastStop := 0
  around := around

/-! ## Steps -/

/-- Ends the reading. -/
def fail {α : Type} : Read α := do
  throw ⟨(← get).lexeme.span.start⟩

/-- Notes a lesser fault. -/
def flaw : Read Unit :=
  modify fun s => { s with flawed := s.flawed || !s.around.quiet }

/-- Notes a lesser fault if the condition holds. -/
def flawIf (b : Bool) : Read Unit :=
  if b then flaw else pure ()

/-- The current token. -/
def token : Read Token := return (← get).lexeme.token

/-- The offset at which the current token starts. -/
def offset : Read Nat := return (← get).lexeme.span.start

/-- Whether a line ends before the current token. -/
def afterNewline : Read Bool := return (← get).lexeme.newline

/-- The surroundings. -/
def around : Read Surroundings := return (← get).around

/-- Goes to the next token. -/
def bump (scanner : Scanner := .code) : Read Unit :=
  modify fun s => s.advance scanner

/-- Reads the current token again with another scanner. -/
def rescan (scan : Text → Scanned) : Read Unit :=
  modify fun s =>
    let found := scan s.lexeme.here
    { s with
      lexeme :=
        { s.lexeme with
          token := found.token
          span := ⟨s.lexeme.span.start, s.lexeme.span.start + found.bytes⟩
          faulty := found.faulty
          rest := found.rest } }

/-- Whether the current token is this punctuator. -/
def atPunct (p : Punct) : Read Bool := return (← token) == .punct p

/-- Whether the current token is a word with this role. -/
def atRole (r : Role) : Read Bool := do
  match ← token with
  | .word r' _ => return r' == r
  | _ => return false

/-- The role of the current token, `plain` if it is no word. -/
def role : Read Role := do
  match ← token with
  | .word r _ => return r
  | _ => return .plain

/-- Passes a punctuator if it is there. -/
def eat (p : Punct) : Read Bool := do
  if ← atPunct p then
    bump
    return true
  else return false

/-- Whether the text has been read to its end. -/
def atEnd : Read Bool := return (← token) == .endOfText

/-- Passes a word with this role if it is there. -/
def eatRole (r : Role) : Read Bool := do
  if ← atRole r then
    bump
    return true
  else return false

/-- Passes a punctuator, which must be there. -/
def expect (p : Punct) (scanner : Scanner := .code) : Read Unit := do
  if ← atPunct p then bump scanner else fail

/-- Passes a word with this role, which must be there. -/
def expectRole (r : Role) : Read Unit := do
  if ← atRole r then bump else fail

/-- The lexeme after the current one. -/
def peek : Read Lexeme := return (← get).advance.lexeme

/-- Whether the next token is this punctuator. -/
def peekPunct (p : Punct) : Read Bool := return (← peek).token == .punct p

/-- The role of the next token, `plain` if it is no word. -/
def peekRole : Read Role := do
  match (← peek).token with
  | .word r _ => return r
  | _ => return .plain

/-- Reads in other surroundings. -/
def inside {α : Type} (change : Surroundings → Surroundings) (r : Read α) : Read α := fun s =>
  match r { s with around := change s.around } with
  | .ok a s' => .ok a { s' with around := s.around }
  | .error e s' => .error e { s' with around := s.around }

/-- Tries a reading, without noting lesser faults. If it comes to nothing, nothing has been read. -/
def attempt {α : Type} (r : Read α) : Read (Option α) := fun s =>
  match inside (fun a => { a with quiet := true }) r s with
  | .ok a s' => .ok (some a) s'
  | .error _ _ => .ok none s

/-- What a reading would find, without going anywhere. -/
def lookAhead (r : Read Bool) : Read Bool := fun s =>
  match r s with
  | .ok b _ => .ok b s
  | .error _ _ => .ok false s

theorem attempt_ok {α : Type} {r : Read α} {s s' : State} {a : α}
    (h : inside (fun a => { a with quiet := true }) r s = .ok a s') : attempt r s = .ok (some a) s' := by
  simp [attempt, h]

theorem attempt_error {α : Type} {r : Read α} {s s' : State} {e : Fault}
    (h : inside (fun a => { a with quiet := true }) r s = .error e s') : attempt r s = .ok none s := by
  simp [attempt, h]

/-- Repeats a step until it gives a result. Each step must pass a token, so the length of the text left bounds them. -/
def iterate {α β : Type} (step : α → Read (α ⊕ β)) (a : α) : Read β := do
  go ((← get).lexeme.rest.length + 3) a
where
  /-- At most this many steps. -/
  go : Nat → α → Read β
    | 0, _ => fail
    | n + 1, a => do
      match ← step a with
      | .inl a => go n a
      | .inr b => return b

/-- Collects what a step reads until it gives nothing more. -/
def collect (step : Read (Option Node)) : Read (List Node) :=
  iterate
    (fun found => do
      match ← step with
      | some n => return .inl (n :: found)
      | none => return .inr found.reverse)
    []

/-- A node from an offset to the end of the token before. -/
def finish (start : Nat) (kind : Kind) (parts : List Node) : Read Node :=
  return .mk kind ⟨start, (← get).lastStop⟩ parts

/-- Whether a statement may end here. -/
def atStatementEnd : Read Bool := do
  if ← afterNewline then return true
  match ← token with
  | .punct .semi | .punct .rbrace | .endOfText => return true
  | _ => return false

/-- Ends a statement if it may end here, passing a semicolon. -/
def eatStatementEnd : Read Bool := do
  if ← eat .semi then return true
  atStatementEnd

/-- Ends a statement. -/
def expectStatementEnd : Read Unit := do
  unless ← eatStatementEnd do fail

end StyleHoist.Script
