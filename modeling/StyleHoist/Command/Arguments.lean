import StyleHoist.Settings.Basic

/-!
# Command lines

The words of a command line and the commands that they give. Words are read from left to right. The value of an option
is checked only when the next option or operand is met, and the first fault in this order decides.

- `Overrides.apply_none`: a command line that changes nothing leaves the settings.
-/

namespace StyleHoist.Command

/-! ## Commands -/

/-- Arguments that all commands on files share. -/
structure CommonArguments where
  /-- The directory from which settings are looked for. -/
  path : Option Text := none
  verbose : Bool := false
deriving DecidableEq, Repr

/-- What a command line changes of the settings. -/
structure Overrides where
  sort : Bool := false
  noComments : Bool := false
  insertAt : Option InsertionPolicy := none
deriving DecidableEq, Repr

/-- Settings with what a command line changes. -/
def Overrides.apply (o : Overrides) (s : Settings) : Settings :=
  { s with
    sortProperties := o.sort || s.sortProperties
    keepComments := !o.noComments && s.keepComments
    policy := o.insertAt.getD s.policy }

theorem Overrides.apply_none (s : Settings) : ({} : Overrides).apply s = s := by
  simp [Overrides.apply]

/-- Where a cursor is given. -/
inductive Cursor
  | offset (n : Nat)
  /-- Line and column, counted from 1. -/
  | lineColumn (line column : Nat)
deriving DecidableEq, Repr

/-- A command to extract one style. -/
structure ExtractCommand where
  file : Text
  cursor : Cursor
  name : Option Text
  apply : Bool
  overrides : Overrides
  common : CommonArguments
deriving DecidableEq, Repr

/-- A command to extract all styles of a file. -/
structure ExtractAllCommand where
  file : Text
  apply : Bool
  overrides : Overrides
  common : CommonArguments
deriving DecidableEq, Repr

/-- A command to inspect a file. -/
structure InspectCommand where
  file : Text
  line : Option Nat
  common : CommonArguments
deriving DecidableEq, Repr

/-- A command. -/
inductive Invocation
  | extract (c : ExtractCommand)
  | extractAll (c : ExtractAllCommand)
  | inspect (c : InspectCommand)
  | init
  | serve
deriving DecidableEq, Repr

/-- Whether a command asks for more output. -/
def Invocation.verbose : Invocation → Bool
  | .extract c => c.common.verbose
  | .extractAll c => c.common.verbose
  | .inspect c => c.common.verbose
  | .init | .serve => false

/-- What a command line is refused for, or what it asks for in place of a command. -/
inductive UsageFault
  | unknownArgument
  | invalidSubcommand
  /-- A value is missing, empty or none of those allowed. -/
  | invalidValue
  /-- A value is no number. -/
  | valueValidation
  | argumentConflict
  | missingRequiredArgument
  | tooManyValues
  | displayHelp
  | displayVersion
deriving DecidableEq, Repr

/-! ## What words can mean -/

/-- The words that begin commands. -/
inductive Verb
  | extract
  | extractAll
  | inspect
  | init
  | serve
deriving DecidableEq, Repr

/-- What takes a value: the file to work on, or an option. -/
inductive Slot
  | file
  | line
  | column
  | offset
  | name
  | insertAt
  | path
deriving DecidableEq, Repr

/-- Options without a value. -/
inductive Switch
  | apply
  | sort
  | noComments
  | verbose
deriving DecidableEq, Repr

/-- The verb that a word is. -/
def Verb.ofText? (w : Text) : Option Verb :=
  (([("extract", .extract), ("extract-all", .extractAll), ("inspect", .inspect), ("init", .init), ("serve", .serve)] :
    List (String × Verb)).find? fun v => v.1.toList == w).map (·.2)

/-- The word for help. -/
def helpWord : Text := "help".toList

/-- Options with a value, and the commands that have them. -/
def slots : List (String × Slot × List Verb) :=
  [("line", .line, [.extract, .inspect]),
    ("column", .column, [.extract]),
    ("offset", .offset, [.extract]),
    ("name", .name, [.extract]),
    ("insert-at", .insertAt, [.extract, .extractAll]),
    ("path", .path, [.extract, .extractAll, .inspect])]

/-- Options without a value, and the commands that have them. -/
def switches : List (String × Switch × List Verb) :=
  [("apply", .apply, [.extract, .extractAll]),
    ("sort", .sort, [.extract, .extractAll]),
    ("no-comments", .noComments, [.extract, .extractAll]),
    ("verbose", .verbose, [.extract, .extractAll, .inspect])]

/-- The option of a verb among those given. -/
def optionOf? {α : Type} (options : List (String × α × List Verb)) (verb : Verb) (name : Text) : Option α :=
  (options.find? fun o => o.1.toList == name && o.2.2.contains verb).map (·.2.1)

/-- Whether a verb works on a file. -/
def Verb.takesFile (v : Verb) : Bool :=
  v == .extract || v == .extractAll || v == .inspect

/-! ## Values -/

/-- The value of an option. -/
inductive Value
  | text (t : Text)
  | number (n : Nat)
  | policy (p : InsertionPolicy)
deriving DecidableEq, Repr

/-- A whole number of at most 64 bits, with an optional plus sign. -/
def number? (t : Text) : Option Nat :=
  let digits :=
    match t with
    | '+' :: digits => digits
    | digits => digits
  let n := digits.foldl (fun n c => n * 10 + (c.toNat - '0'.toNat)) 0
  if !digits.isEmpty && digits.all Char.isDigit && n < UInt64.size then some n else none

/-- The policy that a word on a command line names. -/
def policy? (t : Text) : Option InsertionPolicy :=
  (([("top", .top), ("bottom", .bottom), ("after-imports", .afterImports)] : List (String × InsertionPolicy)).find?
    fun p => p.1.toList == t).map (·.2)

/-- Reads the value of an option. -/
def Slot.read (s : Slot) (t : Text) : Except UsageFault Value :=
  match s with
  | .file | .path => if t.isEmpty then .error .invalidValue else .ok (.text t)
  | .name => .ok (.text t)
  | .line | .column | .offset =>
    match number? t with
    | some n => .ok (.number n)
    | none => .error .valueValidation
  | .insertAt =>
    match policy? t with
    | some p => .ok (.policy p)
    | none => .error .invalidValue

/-! ## Reading words -/

/-- What the words of a command have given so far. -/
structure Words where
  values : List (Slot × Value) := []
  switches : List Switch := []
  /-- The option met last and its value, which are not yet checked. -/
  pending : Option (Slot × Option Text) := none
  /-- Whether a double dash has been met. -/
  operandsOnly : Bool := false

namespace Words

/-- Whether an option has a value. -/
def has (w : Words) (s : Slot) : Bool :=
  w.values.any (·.1 == s)

/-- Gives an option a value. -/
def give (w : Words) (s : Slot) (t : Text) : Except UsageFault Words :=
  if w.has s then .error .argumentConflict else (s.read t).map fun v => { w with values := w.values ++ [(s, v)] }

/-- Checks the option met last. -/
def settle (w : Words) : Except UsageFault Words :=
  match w.pending with
  | none => .ok w
  | some (_, none) => .error .invalidValue
  | some (s, some t) => ({ w with pending := none }).give s t

/-- Meets an option without a value. -/
def switch (w : Words) (s : Switch) : Except UsageFault Words := do
  let w ← w.settle
  if w.switches.contains s then throw .argumentConflict
  return { w with switches := w.switches ++ [s] }

/-- Meets the file to work on, or a word too many. -/
def operand (w : Words) (verb : Verb) (t : Text) : Except UsageFault Words :=
  if verb.takesFile && !w.has .file && !w.pending.any (·.1 == .file) then
    w.settle.map fun w => { w with pending := some (.file, some t) }
  else .error .unknownArgument

/-- Meets an option by its long name, with the value behind an equals sign if there is one. -/
def longOption (w : Words) (verb : Verb) (name : Text) (value : Option Text) : Except UsageFault Words :=
  match optionOf? slots verb name, optionOf? Command.switches verb name with
  | some s, _ => do
    let w ← w.settle
    match value with
    | some t => w.give s t
    | none => return { w with pending := some (s, none) }
  | none, some s => if value.isSome then .error .tooManyValues else w.switch s
  | none, none =>
    if name == helpWord then
      if value.isSome then .error .tooManyValues
      else do
        discard w.settle
        throw .displayHelp
    else .error .unknownArgument

/-- Meets options by their letters. -/
def shortOptions (w : Words) (verb : Verb) : Text → Except UsageFault Words
  | [] => .ok w
  | c :: cs =>
    if c == 'h' then do
      discard w.settle
      throw .displayHelp
    else if c == 'v' && (optionOf? Command.switches verb "verbose".toList).isSome then do
      shortOptions (← w.switch .verbose) verb cs
    else .error .unknownArgument

/-- Splits a word at its first equals sign. -/
def splitValue (t : Text) : Text × Option Text :=
  match t.dropWhile (· != '=') with
  | _ :: value => (t.takeWhile (· != '='), some value)
  | [] => (t, none)

/-- Meets a word. -/
def meet (verb : Verb) (w : Words) (t : Text) : Except UsageFault Words :=
  if w.operandsOnly then w.operand verb t
  else
    match t with
    | ['-', '-'] => .ok { w with operandsOnly := true }
    | '-' :: '-' :: rest => w.longOption verb (splitValue rest).1 (splitValue rest).2
    | '-' :: c :: rest => w.shortOptions verb (c :: rest)
    | t =>
      match w.pending with
      | some (s, none) => .ok { w with pending := some (s, some t) }
      | _ => w.operand verb t

/-- The text given for an option. -/
def text? (w : Words) (s : Slot) : Option Text :=
  w.values.findSome? fun v =>
    match v with
    | (s', .text t) => if s' == s then some t else none
    | _ => none

/-- The number given for an option. -/
def number? (w : Words) (s : Slot) : Option Nat :=
  w.values.findSome? fun v =>
    match v with
    | (s', .number n) => if s' == s then some n else none
    | _ => none

/-- The policy that is given. -/
def policy? (w : Words) : Option InsertionPolicy :=
  w.values.findSome? fun v =>
    match v with
    | (_, .policy p) => some p
    | _ => none

/-- The arguments that all commands share. -/
def common (w : Words) : CommonArguments :=
  ⟨w.text? .path, w.switches.contains .verbose⟩

/-- What the words change of the settings. -/
def overrides (w : Words) : Overrides :=
  ⟨w.switches.contains .sort, w.switches.contains .noComments, w.policy?⟩

/-- The cursor that the words give: an offset or a line and a column, but not both. -/
def cursor (w : Words) : Except UsageFault Cursor :=
  match w.number? .offset, w.number? .line, w.number? .column with
  | some n, none, none => .ok (.offset n)
  | some _, _, _ => .error .argumentConflict
  | none, some line, some column => .ok (.lineColumn line column)
  | none, _, _ => .error .missingRequiredArgument

/-- The file that the words give. -/
def file (w : Words) : Except UsageFault Text :=
  match w.text? .file with
  | some t => .ok t
  | none => .error .missingRequiredArgument

/-- The command that the words of a verb give. -/
def finish (w : Words) : Verb → Except UsageFault Invocation
  | .extract => do
    let cursor ← w.cursor
    return .extract ⟨← w.file, cursor, w.text? .name, w.switches.contains .apply, w.overrides, w.common⟩
  | .extractAll => do return .extractAll ⟨← w.file, w.switches.contains .apply, w.overrides, w.common⟩
  | .inspect => do return .inspect ⟨← w.file, w.number? .line, w.common⟩
  | .init => .ok .init
  | .serve => .ok .serve

end Words

/-! ## Command lines -/

/-- Reads the words behind a verb. -/
def parseVerb (verb : Verb) (words : List Text) : Except UsageFault Invocation := do
  let w ← words.foldlM (Words.meet verb) {}
  (← w.settle).finish verb

/-- Whether a word begins a command or asks for help. -/
def isVerbWord (w : Text) : Bool :=
  (Verb.ofText? w).isSome || w == helpWord

/-- What words behind the one for help come to. At most one of them may be there, and it must begin a command. -/
def helpFault : List Text → UsageFault
  | [] => .displayHelp
  | [w] => if isVerbWord w then .displayHelp else .invalidSubcommand
  | _ => .invalidSubcommand

/-- What a word in front of any verb comes to. -/
def topFault : Text → UsageFault
  | '-' :: '-' :: rest =>
    let (name, value) := Words.splitValue rest
    if name == helpWord then if value.isSome then .tooManyValues else .displayHelp
    else if name == "version".toList then if value.isSome then .tooManyValues else .displayVersion
    else .unknownArgument
  | '-' :: 'h' :: _ => .displayHelp
  | '-' :: 'V' :: _ => .displayVersion
  | '-' :: _ :: _ => .unknownArgument
  | _ => .invalidSubcommand

/-- The command that a command line gives, if it gives one. -/
def parse : List Text → Except UsageFault (Option Invocation)
  | [] => .ok none
  | w :: ws =>
    if w == ['-', '-'] then
      match ws with
      | [] => .ok none
      | x :: _ => .error (if isVerbWord x then .unknownArgument else .invalidSubcommand)
    else if w == helpWord then .error (helpFault ws)
    else
      match Verb.ofText? w with
      | some verb => (parseVerb verb ws).map some
      | none => .error (topFault w)

end StyleHoist.Command
