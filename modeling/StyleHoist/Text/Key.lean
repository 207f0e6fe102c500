import StyleHoist.Text.Basic
import StyleHoist.Text.Word

/-!
# Keys

A key is a word with a colon after it. Comments are tied to properties, and entries of a registry are found, by such
keys in the text alone.
-/

namespace StyleHoist

/-- The word at the start of a text and what follows its key, if the text begins with a word and a colon. -/
def keyPart? (t : Text) : Option (Text × Text) :=
  let word := t.takeWhile isWordChar
  match Text.trimStart (t.dropWhile isWordChar) with
  | ':' :: rest => if word.isEmpty then none else some (word, rest)
  | _ => none

/-- The word with which a text begins if a colon follows it. -/
def leadingKey? (t : Text) : Option Text :=
  (keyPart? t).map (·.1)

/-- All keys of a text from left to right, after the first `skip` characters. -/
def keysFrom : (skip : Nat) → Text → List Text
  | _, [] => []
  | skip + 1, _ :: t => keysFrom skip t
  | 0, c :: t =>
    match keyPart? (c :: t) with
    | some (word, rest) => word :: keysFrom (t.length - rest.length) t
    | none => keysFrom 0 t

/-- All keys of a text from left to right. -/
def keysOf (t : Text) : List Text :=
  keysFrom 0 t

/-- The texts of a list without repetitions, in order of first appearance, those in `seen` left out. -/
def distinctFrom (seen : List Text) : List Text → List Text
  | [] => []
  | t :: ts => if seen.contains t then distinctFrom seen ts else t :: distinctFrom (t :: seen) ts

end StyleHoist
