import StyleHoist.Json.Read
import StyleHoist.Settings.Basic
import StyleHoist.Text.Quoted

/-!
# Reading settings

Settings are read from a JSON text or taken from a JSON value: an object with any of them, or a list of them in their
order. Unknown keys are passed over, missing ones leave the default, and a setting that is given twice is refused. A
text is read from left to right, and the first fault decides.
-/

namespace StyleHoist

/-! ## Faults -/

/-- Why settings cannot be read. -/
inductive DecodeFault
  | malformed (fault : JsonFault)
  /-- Something else stands where `expected` belongs. -/
  | mismatch (found : Text) (expected : String)
  /-- A policy is spelled as an object that does not have exactly one member. -/
  | notSingle
  | tooManyItems (count : Nat)
  | repeated (key : SettingKey)
  | unknownPolicy (spelling : Text)
deriving DecidableEq, Repr

/-- A word of a message. -/
def ticked (s : String) : String :=
  "\x60" ++ s ++ "\x60"

/-- What a user is told. -/
def DecodeFault.message : DecodeFault → String
  | .malformed fault => fault.message
  | .mismatch found expected => s!"invalid type: {String.ofList found}, expected {expected}"
  | .notSingle => "invalid value: map, expected map with a single key"
  | .tooManyItems count => s!"invalid length {count}, expected fewer elements in array"
  | .repeated key => "duplicate field " ++ ticked key.name
  | .unknownPolicy spelling =>
    "unknown variant " ++ ticked (String.ofList spelling) ++ ", expected one of "
      ++ ", ".intercalate (InsertionPolicy.spellings.map fun s => ticked s.1)

/-- What settings are called in messages. -/
def settingsNoun : String := "struct Config"

/-! ## What is found in the place of something else -/

/-- A number in a message. -/
def describeNumber : JsonNumber → Text
  | .decimal f => "floating point \x60".toList ++ Json.numberText (.decimal f) ++ ['\x60']
  | n => "integer \x60".toList ++ Json.numberText n ++ ['\x60']

/-- A value in a message. -/
def describe : Json → Text
  | .null => "null".toList
  | .bool b => "boolean \x60".toList ++ (if b then "true" else "false").toList ++ ['\x60']
  | .number n => describeNumber n
  | .string t => "string ".toList ++ quotedText false t
  | .array _ => "sequence".toList
  | .object _ => "map".toList

/-- The value at the start of a text, a list or an object being taken for empty. -/
def glance : Text → Except JsonFault Json
  | [] => .error .expectedValue
  | c :: t =>
    if c == '[' then .ok (.array [])
    else if c == '\x7b' then .ok (.object [])
    else (Json.readValue 1 2 (c :: t)).map (·.1)

/-- The fault of a text that has something else where `expected` belongs. -/
def mismatchAt (expected : String) (t : Text) : DecodeFault :=
  match glance t with
  | .ok v => .mismatch (describe v) expected
  | .error fault => .malformed fault

/-! ## Parts of a text -/

/-- A reader of settings: what it has read, and what follows. -/
abbrev SettingReader (α : Type) := Text → Except DecodeFault (α × Text)

/-- Takes over what a reader of JSON says. -/
def fromJson {α : Type} (r : Except JsonFault α) : Except DecodeFault α :=
  r.mapError .malformed

/-- Reads a string, called `expected` in messages. -/
def readString (expected : String) : SettingReader Text := fun t =>
  match Json.skipBlanks t with
  | [] => .error (.malformed .endInValue)
  | '\x22' :: rest => fromJson (Json.readStringRest 0 rest)
  | t => .error (mismatchAt expected t)

/-- Reads a Boolean. -/
def readFlag : SettingReader Bool := fun t =>
  match Json.skipBlanks t with
  | [] => .error (.malformed .endInValue)
  | 't' :: rest => fromJson ((Json.readWord "rue".toList rest).map fun t => (true, t))
  | 'f' :: rest => fromJson ((Json.readWord "alse".toList rest).map fun t => (false, t))
  | t => .error (mismatchAt "a boolean" t)

/-- The policy of a spelling. -/
def policyOf (spelling : Text) : Except DecodeFault InsertionPolicy :=
  match InsertionPolicy.ofText? spelling with
  | some p => .ok p
  | none => .error (.unknownPolicy spelling)

/-- Reads the null that a policy spelled as an object holds. -/
def readNull (t : Text) : Except DecodeFault Text :=
  match Json.skipBlanks t with
  | [] => .error (.malformed .endInValue)
  | 'n' :: rest => fromJson (Json.readWord "ull".toList rest)
  | t => .error (mismatchAt "unit" t)

/-- Reads a policy: a string, or an object whose one key is the spelling. -/
def readPolicy : SettingReader InsertionPolicy := fun t =>
  match Json.skipBlanks t with
  | [] => .error (.malformed .endInValue)
  | '\x22' :: rest => do
    let (spelling, rest) ← fromJson (Json.readStringRest 0 rest)
    return (← policyOf spelling, rest)
  | '\x7b' :: rest => do
    let (spelling, rest) ← readString "variant identifier" rest
    let policy ← policyOf spelling
    match Json.skipBlanks rest with
    | [] => throw (.malformed .endInObject)
    | ':' :: rest =>
      match Json.skipBlanks (← readNull rest) with
      | [] => throw (.malformed .endInObject)
      | '\x7d' :: rest => return (policy, rest)
      | _ => throw (.malformed .expectedValue)
    | _ => throw (.malformed .expectedColon)
  | _ => .error (.malformed .expectedValue)

/-! ## Drafts -/

/-- The settings that have been given so far. -/
structure SettingsDraft where
  namePrefix : Option Text := none
  registryName : Option Text := none
  autoImport : Option Bool := none
  sortProperties : Option Bool := none
  keepComments : Option Bool := none
  policy : Option InsertionPolicy := none
deriving DecidableEq, Repr

namespace SettingsDraft

/-- Whether a setting has been given. -/
def has (d : SettingsDraft) : SettingKey → Bool
  | .namePrefix => d.namePrefix.isSome
  | .registryName => d.registryName.isSome
  | .autoImport => d.autoImport.isSome
  | .sortProperties => d.sortProperties.isSome
  | .keepComments => d.keepComments.isSome
  | .policy => d.policy.isSome

/-- The settings, with defaults for what has not been given. -/
def settle (d : SettingsDraft) : Settings :=
  let defaults : Settings := {}
  { namePrefix := d.namePrefix.getD defaults.namePrefix
    registryName := d.registryName.getD defaults.registryName
    autoImport := d.autoImport.getD defaults.autoImport
    sortProperties := d.sortProperties.getD defaults.sortProperties
    keepComments := d.keepComments.getD defaults.keepComments
    policy := d.policy.getD defaults.policy }

/-- Reads a setting at the start of a text. -/
def read (d : SettingsDraft) : SettingKey → SettingReader SettingsDraft
  | .namePrefix, t => (readString "a string" t).map fun p => ({ d with namePrefix := some p.1 }, p.2)
  | .registryName, t => (readString "a string" t).map fun p => ({ d with registryName := some p.1 }, p.2)
  | .autoImport, t => (readFlag t).map fun p => ({ d with autoImport := some p.1 }, p.2)
  | .sortProperties, t => (readFlag t).map fun p => ({ d with sortProperties := some p.1 }, p.2)
  | .keepComments, t => (readFlag t).map fun p => ({ d with keepComments := some p.1 }, p.2)
  | .policy, t => (readPolicy t).map fun p => ({ d with policy := some p.1 }, p.2)

/-! ## Texts -/

/-- Reads the items of a list, one for each of the settings left. -/
def readList (d : SettingsDraft) : (first : Bool) → List SettingKey → SettingReader SettingsDraft
  | _, [], t => .ok (d, t)
  | first, k :: ks, t =>
    match Json.skipBlanks t with
    | [] => .error (.malformed .endInList)
    | c :: rest =>
      if c == ']' then .ok (d, c :: rest)
      else if first then do
        let (d, rest) ← d.read k (c :: rest)
        readList d false ks rest
      else if c == ',' then
        match Json.skipBlanks rest with
        | [] => .error (.malformed .endInValue)
        | ']' :: _ => .error (.malformed .trailingComma)
        | rest => do
          let (d, rest) ← d.read k rest
          readList d false ks rest
      else .error (.malformed .expectedListEnd)

/-- Reads the end of a list of settings. -/
def readListEnd (t : Text) : Except DecodeFault Text :=
  match Json.skipBlanks t with
  | [] => .error (.malformed .endInList)
  | ']' :: rest => .ok rest
  | ',' :: rest =>
    if (Json.skipBlanks rest).head? = some ']' then .error (.malformed .trailingComma)
    else .error (.malformed .trailingCharacters)
  | _ => .error (.malformed .trailingCharacters)

/-- Reads a key's colon. -/
def readColon (t : Text) : Except DecodeFault Text :=
  match Json.skipBlanks t with
  | [] => .error (.malformed .endInObject)
  | ':' :: rest => .ok rest
  | _ => .error (.malformed .expectedColon)

/-- Reads a member after the opening quote of its key. -/
def readMember (d : SettingsDraft) : SettingReader SettingsDraft := fun t => do
  let (name, rest) ← fromJson (Json.readStringRest 0 t)
  match SettingKey.ofText? name with
  | some key =>
    if d.has key then throw (.repeated key)
    d.read key (← readColon rest)
  | none => return (d, ← fromJson (Json.passValue (← readColon rest)))

/-- Reads the members of an object up to its closing brace. Each takes a character at least, so the length of the text
is fuel enough. -/
def readMembers : (fuel : Nat) → (first : Bool) → SettingsDraft → SettingReader SettingsDraft
  | 0, _, _, _ => .error (.malformed .endInObject)
  | fuel + 1, first, d, t =>
    match Json.skipBlanks t with
    | [] => .error (.malformed .endInObject)
    | c :: rest =>
      if c == '\x7d' then .ok (d, rest)
      else if first then
        if c == '\x22' then do
          let (d, rest) ← d.readMember rest
          readMembers fuel false d rest
        else .error (.malformed .keyNotString)
      else if c == ',' then
        match Json.skipBlanks rest with
        | [] => .error (.malformed .endInValue)
        | '\x22' :: rest => do
          let (d, rest) ← d.readMember rest
          readMembers fuel false d rest
        | '\x7d' :: _ => .error (.malformed .trailingComma)
        | _ => .error (.malformed .keyNotString)
      else .error (.malformed .expectedObjectEnd)

/-- Reads what settings are given as. -/
def readAll : SettingReader SettingsDraft := fun t =>
  match Json.skipBlanks t with
  | [] => .error (.malformed .endInValue)
  | '[' :: rest => do
    let (d, rest) ← readList {} true SettingKey.all rest
    return (d, ← readListEnd rest)
  | '\x7b' :: rest => readMembers (rest.length + 1) true {} rest
  | t => .error (mismatchAt settingsNoun t)

/-! ## Values -/

/-- Takes a string from a value. -/
def takeString (v : Json) : Except DecodeFault Text :=
  match v with
  | .string t => .ok t
  | v => .error (.mismatch (describe v) "a string")

/-- Takes a Boolean from a value. -/
def takeFlag (v : Json) : Except DecodeFault Bool :=
  match v with
  | .bool b => .ok b
  | v => .error (.mismatch (describe v) "a boolean")

/-- Takes a policy from a value. -/
def takePolicy (v : Json) : Except DecodeFault InsertionPolicy :=
  match v with
  | .string t => policyOf t
  | .object [(spelling, .null)] => policyOf spelling
  | .object [(spelling, v)] => do
    discard (policyOf spelling)
    throw (.mismatch (describe v) "unit")
  | .object _ => .error .notSingle
  | v => .error (.mismatch (describe v) "string or map")

/-- Takes a setting from a value. -/
def take (d : SettingsDraft) : SettingKey → Json → Except DecodeFault SettingsDraft
  | .namePrefix, v => (takeString v).map fun t => { d with namePrefix := some t }
  | .registryName, v => (takeString v).map fun t => { d with registryName := some t }
  | .autoImport, v => (takeFlag v).map fun b => { d with autoImport := some b }
  | .sortProperties, v => (takeFlag v).map fun b => { d with sortProperties := some b }
  | .keepComments, v => (takeFlag v).map fun b => { d with keepComments := some b }
  | .policy, v => (takePolicy v).map fun p => { d with policy := some p }

/-- Takes settings from the members of an object. -/
def takeMembers (d : SettingsDraft) : List (Text × Json) → Except DecodeFault SettingsDraft
  | [] => .ok d
  | (name, v) :: rest =>
    match SettingKey.ofText? name with
    | some key => if d.has key then .error (.repeated key) else do takeMembers (← d.take key v) rest
    | none => takeMembers d rest

/-- Takes settings from the items of a list of `count` items. -/
def takeItems (d : SettingsDraft) (count : Nat) : List SettingKey → List Json → Except DecodeFault SettingsDraft
  | k :: ks, v :: vs => do takeItems (← d.take k v) count ks vs
  | _, [] => .ok d
  | [], _ :: _ => .error (.tooManyItems count)

end SettingsDraft

/-! ## Settings -/

/-- The settings that a text holds. -/
def Settings.ofText (t : Text) : Except DecodeFault Settings := do
  let (d, rest) ← SettingsDraft.readAll t
  if (Json.skipBlanks rest).isEmpty then return d.settle else throw (.malformed .trailingCharacters)

/-- The settings that a value holds. -/
def Settings.ofJson : Json → Except DecodeFault Settings
  | .object members => (SettingsDraft.takeMembers {} members).map (·.settle)
  | .array items => (SettingsDraft.takeItems {} items.length SettingKey.all items).map (·.settle)
  | v => .error (.mismatch (describe v) settingsNoun)

end StyleHoist
