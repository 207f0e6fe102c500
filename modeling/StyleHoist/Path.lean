import StyleHoist.Text.Basic

/-!
# Paths

Paths are names with slashes between them. Empty names and names of one dot change nothing and are passed over.

- `extension?_hidden`: a dot that begins a name begins no extension.
- `join_empty`: in the empty path a name stands alone.
-/

namespace StyleHoist.Path

/-- What stands between the slashes of a path. -/
def split : Text → List Text
  | [] => [[]]
  | c :: t =>
    if c == '/' then [] :: split t
    else
      match split t with
      | [] => [[c]]
      | n :: ns => (c :: n) :: ns

/-- The names of a path between slashes, without those that change nothing. -/
def names (path : String) : List Text :=
  (split path.toList).filter fun n => !n.isEmpty && n != ['.']

/-- The last name of a path, unless it leads upward. -/
def fileName? (path : String) : Option Text :=
  match (names path).getLast? with
  | some ['.', '.'] => none
  | n => n

/-- What follows the last dot of a name, unless nothing stands before that dot. -/
def extensionOf (name : Text) : Option Text :=
  let tail := name.reverse.takeWhile (· != '.')
  if tail.length + 1 < name.length then some tail.reverse else none

/-- The extension of the file that a path names. -/
def extension? (path : String) : Option Text :=
  (fileName? path).bind extensionOf

/-- A name in a directory. -/
def join (directory name : String) : String :=
  if directory.isEmpty || directory.toList.getLast? = some '/' then directory ++ name else directory ++ "/" ++ name

/-- A reversed path without slashes and names of one dot at its end, which change nothing. -/
def dropTail : Text → Text
  | '/' :: [] => ['/']
  | '/' :: rest => dropTail rest
  | '.' :: '/' :: rest => dropTail ('/' :: rest)
  | path => path

/-- The directory that a path lies in. The empty path and the root lie in none. -/
def parent? (path : String) : Option String :=
  match dropTail path.toList.reverse with
  | [] | ['/'] => none
  | t => some (String.ofList (dropTail (t.dropWhile (· != '/'))).reverse)

theorem join_empty (name : String) : join "" name = name := by
  simp [join]

theorem extension?_hidden : extension? ".ts" = none := by decide

end StyleHoist.Path
