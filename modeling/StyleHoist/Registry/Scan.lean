import StyleHoist.Registry.Basic
import StyleHoist.Text.Identifier
import StyleHoist.Text.Word

/-!
# Finding registries

Registries are found in the text alone, also in one that does not parse. A header is recognised wherever it stands, and
a scan that looks through quotes and comments finds the brace that closes its entries.
-/

namespace StyleHoist

/-! ## Headers -/

/-- Whether `c` begins the name of a registry. -/
def isRegistryNameStart (c : Char) : Bool :=
  c.isAlpha || c == '_' || c == '$'

/-- Whether `c` continues the name of a registry. -/
def isRegistryNameChar (c : Char) : Bool :=
  isWordChar c || c == '$'

/-- What follows words that stand one after the other, with white space allowed before each. -/
def dropSpaced? : List Text → Text → Option Text
  | [], t => some t
  | w :: ws, t => (Text.dropPart? w (Text.trimStart t)).bind (dropSpaced? ws)

/-- What stands between the name of a registry and its entries. -/
def headerWords : List Text :=
  ["=".toList, registryFactory, ".".toList, "create".toList, "(".toList, "\x7b".toList]

/-- The name of the registry whose header begins a text, and what follows its opening brace. -/
def headerPart? (t : Text) : Option (Text × Text) := do
  let afterConst ← Text.dropPart? "const".toList t
  let rest := Text.trimStart afterConst
  if rest.length = afterConst.length then none
  else
    match rest with
    | c :: cs =>
      if isRegistryNameStart c then do
        let entries ← dropSpaced? headerWords (cs.dropWhile isRegistryNameChar)
        return (c :: cs.takeWhile isRegistryNameChar, entries)
      else none
    | [] => none

/-! ## Bodies -/

/-- Where a scan for a closing brace stands. -/
inductive Region
  | code
  /-- Between quotes of one kind. -/
  | quoted (quote : Char)
  | lineComment
  | blockComment
deriving DecidableEq, Repr

/-- Characters that open a quotation in code. -/
def opensQuote (c : Char) : Bool :=
  c == '\x27' || c == '\x22' || c == '\x60'

/-- Splits a text at the brace that closes `depth` open braces and one more. A quotation ends at its quote, a backslash
hiding one character of it; a line comment at the newline; a block comment at the first closing marker. -/
def closeBody? : Region → (depth : Nat) → Text → Option (Text × Text)
  | _, _, [] => none
  | .code, depth, c :: t =>
    if c == '\x7d' then
      match depth with
      | 0 => some ([], t)
      | depth + 1 => (closeBody? .code depth t).map fun p => (c :: p.1, p.2)
    else if c == '\x7b' then (closeBody? .code (depth + 1) t).map fun p => (c :: p.1, p.2)
    else if opensQuote c then (closeBody? (.quoted c) depth t).map fun p => (c :: p.1, p.2)
    else
      match c, t with
      | '/', '/' :: t => (closeBody? .lineComment depth t).map fun p => ('/' :: '/' :: p.1, p.2)
      | '/', '*' :: t => (closeBody? .blockComment depth t).map fun p => ('/' :: '*' :: p.1, p.2)
      | c, t => (closeBody? .code depth t).map fun p => (c :: p.1, p.2)
  | .quoted _, _, ['\\'] => none
  | .quoted q, depth, '\\' :: c :: t => (closeBody? (.quoted q) depth t).map fun p => ('\\' :: c :: p.1, p.2)
  | .quoted q, depth, c :: t =>
    (closeBody? (if c == q then .code else .quoted q) depth t).map fun p => (c :: p.1, p.2)
  | .lineComment, depth, c :: t =>
    (closeBody? (if c == '\n' then .code else .lineComment) depth t).map fun p => (c :: p.1, p.2)
  | .blockComment, depth, '*' :: '/' :: t => (closeBody? .code depth t).map fun p => ('*' :: '/' :: p.1, p.2)
  | .blockComment, depth, c :: t => (closeBody? .blockComment depth t).map fun p => (c :: p.1, p.2)

/-- How many bytes from the closing brace on belong to a declaration: the brace, and the parenthesis that follows it if
only white space stands between. -/
def closingSize (rest : Text) : Nat :=
  match Text.trimStart rest with
  | ')' :: behind => 1 + (Text.size rest - Text.size behind)
  | _ => 1

/-- The registry whose header stands at `offset`, the entries beginning at `entries` in front of `rest`. -/
def Registry.at? (name : Text) (offset entries : Nat) (rest : Text) : Option Registry := do
  let (body, behind) ← closeBody? .code 0 rest
  let closeBrace := entries + Text.size body
  return ⟨name, body, ⟨offset, closeBrace + closingSize behind⟩, closeBrace⟩

/-! ## Texts -/

/-- The registries of a text that stands at `offset`, after the first `skip` characters. A header that has been read is
not searched again for another. -/
def registriesFrom : (skip offset : Nat) → Text → List Registry
  | _, _, [] => []
  | skip + 1, offset, c :: t => registriesFrom skip (offset + c.utf8Size) t
  | 0, offset, c :: t =>
    match headerPart? (c :: t) with
    | some (name, rest) =>
      (Registry.at? name offset (offset + (Text.size (c :: t) - Text.size rest)) rest).toList
        ++ registriesFrom (t.length - rest.length) (offset + c.utf8Size) t
    | none => registriesFrom 0 (offset + c.utf8Size) t

/-- Every registry of a text, in order. -/
def registriesIn (t : Text) : List Registry :=
  registriesFrom 0 0 t

end StyleHoist
