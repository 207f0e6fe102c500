import StyleHoist.Comment.Basic

/-!
# Taking comments out

A body is scanned line by line, and each line from left to right. Quotes hide comment markers up to the end of their
line, backticks up to the closing backtick. A block comment ends at the first closing marker. Each comment is tied to a
property by the text around it.
-/

namespace StyleHoist

/-! ## Markers -/

/-- What a scan of a line finds. -/
inductive MarkerScan
  /-- There is no marker; the line may end inside a template literal. -/
  | clear (inTemplate : Bool)
  | found (before : Text) (kind : CommentKind) (after : Text)
deriving DecidableEq, Repr

/-- Puts a character before what a scan finds. -/
def MarkerScan.cons (c : Char) : MarkerScan → MarkerScan
  | .clear b => .clear b
  | .found before kind after => .found (c :: before) kind after

/-- Finds the first comment marker that no quote hides, `quote` being the quote that is open. -/
def findMarker : (quote : Option Char) → Text → MarkerScan
  | quote, [] => .clear (quote == some '\x60')
  | some q, '\\' :: [] => .clear (q == '\x60')
  | some q, '\\' :: c :: t => ((findMarker (some q) t).cons c).cons '\\'
  | some q, c :: t => (findMarker (if c == q then none else some q) t).cons c
  | none, '/' :: '/' :: t => .found [] .line t
  | none, '/' :: '*' :: t => .found [] .block t
  | none, c :: t =>
    (findMarker (if c == '\x27' || c == '\x22' || c == '\x60' then some c else none) t).cons c

/-- The marker that closes a block comment. -/
def blockClose : Text := "*/".toList

/-! ## Association -/

/-- Lines that are passed over when the property of a comment is looked for: blank ones and those that begin with a
comment. The line has been trimmed. -/
def isSkippable (line : Text) : Bool :=
  line.isEmpty || Text.beginsWith "//".toList line || Text.beginsWith "/*".toList line

/-- The key with which the first line that is not passed over begins. -/
def nearestKey? (lines : List Text) : Option Text :=
  (((lines.map Text.trim).dropWhile isSkippable).head?).bind leadingKey?

/-- The property of a comment and its place. Code before the comment on its line comes first, then the line below it,
and for a block that spans lines the line above it. -/
def associate (lines : List Text) (code : Text) (first last : Nat) (spansLines : Bool) : Option Text × Placement :=
  match leadingKey? (Text.trim code) with
  | some name => (some name, .sameLine)
  | none =>
    match nearestKey? (lines.drop (last + 1)) with
    | some name => (some name, .before)
    | none =>
      match if spansLines then nearestKey? (lines.take first).reverse else none with
      | some name => (some name, .after)
      | none => (none, .before)

/-! ## Lines -/

/-- Code that is left of a line, unless nothing is left. -/
def keepCode (code : Text) : List Text :=
  if Text.isBlank code then [] else [Text.trimEnd code]

/-- Lines without blank ones after other blank ones, `blankBefore` telling whether one stands before the first. -/
def collapseBlank (blankBefore : Bool) : List Text → List Text
  | [] => []
  | l :: ls =>
    if blankBefore && Text.isBlank l then collapseBlank true ls else l :: collapseBlank (Text.isBlank l) ls

/-- Lines joined, with no blank lines at either end and no two in a row. -/
def tidy (kept : List Text) : Text :=
  Text.joinLines ((collapseBlank true kept).reverse.dropWhile Text.isBlank).reverse

/-- What the lines after the opening of a block comment add to it. -/
structure BlockRest where
  /-- What they add to the text of the comment. -/
  text : Text
  /-- How many of them it takes. -/
  lines : Nat
  /-- The line on which it closes: the part up to the closing marker, and the part after it. -/
  closing : Option (Text × Text)

/-- Reads on in a block comment over the following lines. -/
def blockRest : List Text → BlockRest
  | [] => ⟨[], 0, none⟩
  | l :: ls =>
    match Text.splitOn? blockClose l with
    | some (inner, rest) => ⟨'\n' :: inner, 1, some (inner ++ blockClose, rest)⟩
    | none =>
      let more := blockRest ls
      ⟨'\n' :: l ++ more.text, more.lines + 1, more.closing⟩

/-! ## Bodies -/

/-- A body without its comments, and the comments. -/
structure Stripped where
  cleaned : Text
  comments : List Comment
deriving DecidableEq, Repr

/-- Lines that are kept and comments that are found, in order. -/
abbrev Stripping := List Text × List Comment

/-- Scans the lines of a body from line `n` on. Of that line `done` has been scanned and `rest` is left; `code` is its
code so far. Each step ends a line or passes a comment, so `fuel` steps with `fuel` above the length of the body
suffice. -/
def stripFrom (lines : List Text) : (fuel n : Nat) → (done code rest : Text) → (inTemplate : Bool) → Stripping
  | 0, _, _, _, _, _ => ([], [])
  | fuel + 1, n, done, code, rest, inTemplate =>
    let nextLine := fun (inTemplate : Bool) =>
      match lines[n + 1]? with
      | some l => stripFrom lines fuel (n + 1) [] [] l inTemplate
      | none => ([], [])
    match findMarker (if inTemplate then some '\x60' else none) rest with
    | .clear inTemplate =>
      let more := nextLine inTemplate
      ((if done.isEmpty then [rest] else keepCode (code ++ rest)) ++ more.1, more.2)
    | .found before .line after =>
      let code := code ++ before
      let (property, placement) := associate lines code n n false
      let more := nextLine false
      (keepCode code ++ more.1,
        ⟨.line, Text.trim after, n + 1, (done ++ before).length + 1, none, property, placement⟩ :: more.2)
    | .found before .block after =>
      let code := code ++ before
      let column := (done ++ before).length + 1
      match Text.splitOn? blockClose after with
      | some (inner, rest) =>
        let (property, placement) := associate lines code n n false
        let more := stripFrom lines fuel n (done ++ before ++ "/*".toList ++ inner ++ blockClose) code rest false
        (more.1, ⟨.block, inner, n + 1, column, none, property, placement⟩ :: more.2)
      | none =>
        let block := blockRest (lines.drop (n + 1))
        let last := n + block.lines
        let endColumn :=
          match block.closing with
          | some (closed, _) => closed.length
          | none => (lines[last]?.getD []).length
        let (property, placement) := associate lines code n last true
        let more :=
          match block.closing with
          | some (closed, rest) => stripFrom lines fuel last closed [] rest false
          | none => ([], [])
        (keepCode code ++ more.1,
          ⟨.block, after ++ block.text, n + 1, column, some (last + 1, endColumn), property, placement⟩ :: more.2)

/-- Takes the comments out of a body. Lines that held nothing else disappear. -/
def stripComments (body : Text) : Stripped :=
  let lines := Text.splitLines body
  let (kept, comments) := stripFrom lines (body.length + 2) 0 [] [] (lines.head?.getD []) false
  ⟨tidy kept, comments⟩

end StyleHoist
