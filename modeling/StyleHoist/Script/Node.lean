import StyleHoist.Text.Basic

/-!
# Nodes

What a script consists of, as a tree of nodes with the ranges of text that they cover. The tree keeps what readers of a
script look at: expressions, the properties of object literals, markup elements and their attributes. Everything else is
a `form`, which only holds its parts together. The children of a node stand in the order in which a reader visits them.

- `Node.look_paren`: parentheses around a value are looked through.
-/

namespace StyleHoist.Script

/-- The ways to write a property of an object literal. -/
inductive PropertyForm
  /-- A key, a colon and a value. -/
  | keyed (computed : Bool)
  /-- A name alone. -/
  | shorthand
  /-- A name with a default, as in a pattern. -/
  | defaulted
  | getter
  | setter
  | method
deriving DecidableEq, Repr

/-- What a node is. -/
inductive Kind
  | ident (name : Text)
  | thisValue
  | superValue
  | privateName
  | string
  | number
  | boolean
  | null
  | bigint
  | regex
  | template
  | tagged
  | array
  /-- A missing element of an array. -/
  | hole
  | spread
  | object
  | property (form : PropertyForm)
  | function
  | classValue
  /-- A constructor with a body. -/
  | constructorMember
  | arrow
  | member
  | superMember
  | optionalChain
  | call
  | construct
  | metaProperty
  /-- A plus or minus before a value. -/
  | signed
  | unary
  | update
  | binary
  | logical
  | coalesce
  | assignment
  | conditional
  | sequence
  | paren
  /-- The key of a property between brackets. -/
  | computedKey
  | yielded
  | awaited
  | typedAs
  | nonNull
  | assertion
  | instantiation
  | element
  | fragment
  /-- A markup attribute; the name is present if it is a single word. -/
  | tagAttribute (name : Option Text)
  /-- An expression between braces in markup. -/
  | container
  /-- A binding pattern that is not a name. -/
  | pattern
  /-- A rest parameter, with or without a type. -/
  | restPattern
  /-- A pattern with a default. -/
  | defaultPattern
  | expressionStatement
  | invalid
  /-- Anything that only holds its parts together. -/
  | form
deriving DecidableEq, Repr

/-- A node: what it is, the range that it covers, and its parts. -/
inductive Node
  | mk (kind : Kind) (span : Span) (parts : List Node)

instance : Inhabited Node := ⟨.mk .invalid ⟨0, 0⟩ []⟩

namespace Node

/-- What the node is. -/
def kind : Node → Kind
  | .mk k _ _ => k

/-- The range that the node covers. -/
def span : Node → Span
  | .mk _ s _ => s

/-- The parts of the node. -/
def parts : Node → List Node
  | .mk _ _ ps => ps

mutual

/-- The node inside any parentheses. -/
def look : Node → Node
  | .mk .paren s ps => lookFirst (.mk .paren s ps) ps
  | n => n

/-- The first of the parts inside any parentheses, or the given node if there is none. -/
def lookFirst (outer : Node) : List Node → Node
  | [] => outer
  | p :: _ => look p

end

theorem look_paren (s : Span) (n : Node) : look (.mk .paren s [n]) = look n := by
  simp [look, lookFirst]

/-- Whether the node is a word with this name. -/
def isIdent (n : Node) (name : Text) : Bool :=
  match n.kind with
  | .ident w => w == name
  | _ => false

end Node

end StyleHoist.Script
