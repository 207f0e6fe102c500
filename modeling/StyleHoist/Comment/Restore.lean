import StyleHoist.Comment.Basic

/-!
# Putting comments back

Comments return to the property that they belong to: into a registry entry, or next to the properties that stay where
the style is used. A property named twice gets its comments once, at its first place.

- `restoreEntry_nil`: without comments an entry stays as it is.
-/

namespace StyleHoist

/-! ## Rendering -/

/-- The lines of a block comment after its first. They lose their indentation and get one space; the last gets the
closing marker. -/
def blockTail (indent : Text) : List Text → List Text
  | [] => []
  | [last] =>
    let content := Text.trimStart last
    [Text.trimEnd (indent ++ (if content.isEmpty then " */".toList else ' ' :: content ++ "*/".toList))]
  | l :: ls => Text.trimEnd (indent ++ ' ' :: Text.trimStart l) :: blockTail indent ls

/-- A comment on lines of its own. -/
def Comment.standalone (c : Comment) (indent : Text) : List Text :=
  match c.kind with
  | .line => [indent ++ "// ".toList ++ c.text]
  | .block =>
    if c.isMultiLine then
      match Text.splitLines c.text with
      | [] => []
      | first :: rest => Text.trimEnd (indent ++ "/*".toList ++ first) :: blockTail indent rest
    else [indent ++ "/* ".toList ++ Text.trim c.text ++ " */".toList]

/-- A comment after code on the same line. -/
def Comment.trailing (c : Comment) : Text :=
  match c.kind with
  | .line => "// ".toList ++ c.text
  | .block =>
    let parts := ((Text.splitLines c.text).map Text.trim).filter fun p => !p.isEmpty
    "/* ".toList ++ Text.joinWith [' '] parts ++ " */".toList

/-- The comments of a property in one place. -/
def commentsOf (comments : List Comment) (name : Text) (placement : Placement) : List Comment :=
  comments.filter (·.belongsTo name placement)

/-! ## Registry entries -/

/-- The indentation of orphans in an entry. -/
def orphanIndent : Text := "\t\t".toList

/-- Puts comments around the lines of an entry after its header, `seen` being the names that have got theirs. -/
def restoreLines (comments : List Comment) : (seen : List Text) → List Text → List Text
  | _, [] => []
  | seen, line :: lines =>
    let indent := line.takeWhile Text.isBlankChar
    match leadingKey? (Text.trimStart line) with
    | some name =>
      if seen.contains name then line :: restoreLines comments seen lines
      else
        let own := fun placement => (commentsOf comments name placement).flatMap (·.standalone indent)
        let coded :=
          match commentsOf comments name .sameLine with
          | c :: _ => line ++ ' ' :: c.trailing
          | [] => line
        own .before ++ coded :: own .after ++ restoreLines comments (name :: seen) lines
    | none => line :: restoreLines comments seen lines

/-- Puts comments back into an entry. Orphans go below its header, the others to their properties: those before it
above, the first on its line behind it, those after it below. -/
def restoreEntry (entry : Text) (comments : List Comment) : Text :=
  match Text.splitLines entry with
  | [] => []
  | header :: lines =>
    let orphans := (comments.filter (·.isOrphan)).flatMap (·.standalone orphanIndent)
    Text.joinLines (header :: orphans ++ restoreLines comments [] lines)

theorem restoreLines_nil (seen lines : List Text) : restoreLines [] seen lines = lines := by
  induction lines generalizing seen with
  | nil => rfl
  | cons line lines ih =>
    simp only [restoreLines]
    split
    · split
      · simp [ih]
      · simp [commentsOf, ih]
    · simp [ih]

theorem restoreEntry_nil (entry : Text) : restoreEntry entry [] = entry := by
  have h := Text.joinLines_splitLines entry
  unfold restoreEntry
  cases hs : Text.splitLines entry with
  | nil => exact absurd hs (Text.splitLines_ne_nil entry)
  | cons header lines => simpa [hs, restoreLines_nil] using h

/-! ## Properties in place -/

/-- A line of what stays where a style is used. -/
inductive InlineLine
  | comment (text : Text)
  /-- A property, and the comment behind its comma. -/
  | property (code : Text) (trailing : Option Text)
deriving DecidableEq, Repr

/-- Puts comments around properties, `seen` being the names that have got theirs. -/
def restoreProperties (comments : List Comment) : (seen : List Text) → List Text → List InlineLine
  | _, [] => []
  | seen, code :: codes =>
    match leadingKey? (Text.trimStart code) with
    | some name =>
      if seen.contains name then .property code none :: restoreProperties comments seen codes
      else
        let own := fun placement =>
          ((commentsOf comments name placement).flatMap (·.standalone [])).map InlineLine.comment
        own .before ++ .property code ((commentsOf comments name .sameLine).head?.map (·.trailing))
          :: own .after ++ restoreProperties comments (name :: seen) codes
    | none => .property code none :: restoreProperties comments seen codes

/-- Puts comments back next to the properties that stay where the style is used. Their indentation is left open. -/
def restoreInline (properties : List Text) (comments : List Comment) : List InlineLine :=
  restoreProperties comments [] properties

end StyleHoist
