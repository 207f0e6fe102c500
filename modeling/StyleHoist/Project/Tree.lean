import StyleHoist.Path
import StyleHoist.Project.Files

/-!
# Trees of files

A project directory with its files in memory. Paths are resolved name by name; what lies outside the project is taken
for directories without anything in them.

- `lookup_root`: the project directory is there.
-/

namespace StyleHoist

/-- A file or a directory. -/
inductive Entry
  | file (content : Text)
  | directory
deriving DecidableEq, Repr

/-- A project directory: its absolute path, and what lies at which names below it. Directories around an entry need not
be listed. -/
structure Project where
  root : String
  entries : List (List Text × Entry)

namespace Project

/-- What lies at a list of names. -/
def lookup (p : Project) (names : List Text) : Option Entry :=
  match p.entries.find? fun e => e.1 == names with
  | some e => some e.2
  | none => if names.isEmpty || p.entries.any fun e => names.isPrefixOf e.1 then some .directory else none

theorem lookup_root (p : Project) : (p.lookup []).isSome = true := by
  unfold lookup
  split <;> simp

/-- A place that is there: inside the project, or somewhere outside. -/
inductive Place
  | inside (names : List Text)
  | outside
deriving DecidableEq, Repr

/-- One name further from a place. -/
def step (p : Project) (place : Place) (name : Text) : Except FileFault Place :=
  let isDirectory :=
    match place with
    | .inside names => p.lookup names == some .directory
    | .outside => true
  if !isDirectory then .error .notDirectory
  else if name.isEmpty || name == ['.'] then .ok place
  else
    match place with
    | .outside => if name == "..".toList then .ok .outside else .error .missing
    | .inside names =>
      if name == "..".toList then .ok (if names.isEmpty then .outside else .inside names.dropLast)
      else if 255 < Text.size name then .error .nameTooLong
      else if (p.lookup (names ++ [name])).isSome then .ok (.inside (names ++ [name]))
      else .error .missing

/-- Where a path begins, and the names that follow. -/
def origin (p : Project) (path : Text) : Place × List Text :=
  match Text.dropPart? p.root.toList path with
  | some [] => (.inside [], [])
  | some ('/' :: rest) => (.inside [], Path.split rest)
  | _ => (if path.head? = some '/' then .outside else .inside [], Path.split path)

/-- The place that a path leads to. -/
def resolve (p : Project) (path : String) : Except FileFault Place :=
  if path.isEmpty then .error .missing
  else if path.toList.contains '\x00' then .error .nulInName
  else if 4095 < Text.size path.toList then .error .nameTooLong
  else
    let (place, names) := p.origin path.toList
    names.foldlM p.step place

/-- The content of a file. -/
def read (p : Project) (path : String) : Except FileFault Text := do
  match ← p.resolve path with
  | .inside names =>
    match p.lookup names with
    | some (.file content) => return content
    | some .directory => throw .isDirectory
    | none => throw .missing
  | .outside => throw .isDirectory

/-- Whether a path leads to a place. -/
def isThere (p : Project) (path : String) : Bool :=
  match p.resolve path with
  | .ok _ => true
  | .error _ => false

/-- Gives the file at a list of names a content. -/
def put (p : Project) (names : List Text) (content : Text) : Project :=
  { p with entries := (names, .file content) :: p.entries.filter fun e => e.1 != names }

/-- Writes a file, which may be new in a directory that is there. -/
def write (p : Project) (path : String) (content : Text) : Except FileFault Project :=
  match p.resolve path with
  | .ok (.inside names) => if p.lookup names == some .directory then .error .isDirectory else .ok (p.put names content)
  | .ok .outside => .error .isDirectory
  | .error .missing => do
    let (place, names) := p.origin path.toList
    match names.getLast?, ← names.dropLast.foldlM p.step place with
    | some name, .inside directory => return p.put (directory ++ [name]) content
    | _, _ => throw .missing
  | .error fault => .error fault

/-- Access to the files of a project that is kept as a state. -/
def files (root : String) : Files (StateM Project) where
  workingDirectory := root
  read path := do return (← get).read path
  isThere path := do return (← get).isThere path
  write path content := do
    match (← get).write path content with
    | .ok p => set p; return .ok ()
    | .error fault => return .error fault

/-- A project with the given files; a name that ends in a slash is an empty directory. -/
def ofFiles (root : String) (files : List (String × Text)) : Project :=
  ⟨root, files.map fun f => (Path.names f.1, if f.1.toList.getLast? = some '/' then .directory else .file f.2)⟩

end Project

end StyleHoist
