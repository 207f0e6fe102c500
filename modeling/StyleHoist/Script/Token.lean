import StyleHoist.Text.Basic

/-!
# Tokens

The tokens of a script. Words and the roles they may play are told apart once, here, so that the grammar can match on
roles; a word that plays no role is `plain`.
-/

namespace StyleHoist.Script

/-- The part that a word may play in the grammar. -/
inductive Role
  | plain
  | kwBreak | kwCase | kwCatch | kwClass | kwConst | kwContinue | kwDebugger | kwDefault | kwDelete | kwDo
  | kwElse | kwExport | kwExtends | kwFinally | kwFor | kwFunction | kwIf | kwImport | kwIn | kwInstanceof
  | kwNew | kwReturn | kwSuper | kwSwitch | kwThis | kwThrow | kwTry | kwTypeof | kwVar | kwVoid | kwWhile
  | kwWith | kwNull | kwTrue | kwFalse | kwEnum | kwYield | kwLet | kwStatic | kwAwait | kwImplements
  | kwInterface | kwPackage | kwPrivate | kwProtected | kwPublic | kwAsync | kwAs | kwAsserts | kwAbstract
  | kwAccessor | kwDeclare | kwFrom | kwGet | kwGlobal | kwInfer | kwIs | kwKeyof | kwModule | kwNamespace
  | kwOf | kwOut | kwOverride | kwReadonly | kwRequire | kwSatisfies | kwSet | kwType | kwUnique | kwUsing
deriving DecidableEq, Repr

/-- The words that may play a part, with that part. -/
def roleTable : List (Text × Role) :=
  [
    ("break".toList, .kwBreak), ("case".toList, .kwCase), ("catch".toList, .kwCatch),
    ("class".toList, .kwClass), ("const".toList, .kwConst), ("continue".toList, .kwContinue),
    ("debugger".toList, .kwDebugger), ("default".toList, .kwDefault), ("delete".toList, .kwDelete),
    ("do".toList, .kwDo), ("else".toList, .kwElse), ("export".toList, .kwExport),
    ("extends".toList, .kwExtends), ("finally".toList, .kwFinally), ("for".toList, .kwFor),
    ("function".toList, .kwFunction), ("if".toList, .kwIf), ("import".toList, .kwImport), ("in".toList, .kwIn),
    ("instanceof".toList, .kwInstanceof), ("new".toList, .kwNew), ("return".toList, .kwReturn),
    ("super".toList, .kwSuper), ("switch".toList, .kwSwitch), ("this".toList, .kwThis),
    ("throw".toList, .kwThrow), ("try".toList, .kwTry), ("typeof".toList, .kwTypeof), ("var".toList, .kwVar),
    ("void".toList, .kwVoid), ("while".toList, .kwWhile), ("with".toList, .kwWith), ("null".toList, .kwNull),
    ("true".toList, .kwTrue), ("false".toList, .kwFalse), ("enum".toList, .kwEnum), ("yield".toList, .kwYield),
    ("let".toList, .kwLet), ("static".toList, .kwStatic), ("await".toList, .kwAwait),
    ("implements".toList, .kwImplements), ("interface".toList, .kwInterface), ("package".toList, .kwPackage),
    ("private".toList, .kwPrivate), ("protected".toList, .kwProtected), ("public".toList, .kwPublic),
    ("async".toList, .kwAsync), ("as".toList, .kwAs), ("asserts".toList, .kwAsserts),
    ("abstract".toList, .kwAbstract), ("accessor".toList, .kwAccessor), ("declare".toList, .kwDeclare),
    ("from".toList, .kwFrom), ("get".toList, .kwGet), ("global".toList, .kwGlobal), ("infer".toList, .kwInfer),
    ("is".toList, .kwIs), ("keyof".toList, .kwKeyof), ("module".toList, .kwModule),
    ("namespace".toList, .kwNamespace), ("of".toList, .kwOf), ("out".toList, .kwOut),
    ("override".toList, .kwOverride), ("readonly".toList, .kwReadonly), ("require".toList, .kwRequire),
    ("satisfies".toList, .kwSatisfies), ("set".toList, .kwSet), ("type".toList, .kwType),
    ("unique".toList, .kwUnique), ("using".toList, .kwUsing)]

/-- The part that a word may play. -/
def Role.ofWord (w : Text) : Role :=
  (roleTable.lookup w).getD .plain

/-- Words that never name anything. -/
def Role.isReserved : Role → Bool
  | .kwBreak | .kwCase | .kwCatch | .kwClass | .kwConst | .kwContinue | .kwDebugger | .kwDefault | .kwDelete
  | .kwDo | .kwElse | .kwExport | .kwExtends | .kwFinally | .kwFor | .kwFunction | .kwIf | .kwImport | .kwIn
  | .kwInstanceof | .kwNew | .kwReturn | .kwSuper | .kwSwitch | .kwThis | .kwThrow | .kwTry | .kwTypeof | .kwVar
  | .kwVoid | .kwWhile | .kwWith | .kwNull | .kwTrue | .kwFalse => true
  | _ => false

/-- Words that strict code forbids as names but that can still be read as such. -/
def Role.isStrictReserved : Role → Bool
  | .kwEnum | .kwYield | .kwLet | .kwStatic | .kwImplements | .kwInterface | .kwPackage | .kwPrivate | .kwProtected
  | .kwPublic => true
  | _ => false

/-- Words that name nothing in a module, in which all code is strict. -/
def Role.isReservedInModules (r : Role) : Bool :=
  r.isReserved || r == .kwAwait || (r.isStrictReserved && r != .kwStatic)

/-- Operators and brackets. -/
inductive Punct
  | lbrace | rbrace | lparen | rparen | lbracket | rbracket | dot | ellipsis | semi | comma | colon | question
  | optional | coalesce | arrow | at | hash | backtick | lt | le | shl | gt | equal | notEqual | same | notSame
  | plus | minus | star | slash | percent | starStar | increment | decrement | amp | pipe | caret | andAnd
  | orOr | bang | tilde | assign | plusAssign | minusAssign | starAssign | slashAssign | percentAssign
  | starStarAssign | shlAssign | ampAssign | pipeAssign | caretAssign | andAssign | orAssign | coalesceAssign
  | ge | shr | ushr | shrAssign | ushrAssign
deriving DecidableEq, Repr

/-- The punctuators that a scan finds, the longer before their beginnings. A closing angle bracket is always read alone;
the grammar joins it to what follows where an operator may stand. -/
def punctTable : List (Text × Punct) :=
  [
    ("...".toList, .ellipsis), ("===".toList, .same), ("!==".toList, .notSame), ("**=".toList, .starStarAssign),
    ("<<=".toList, .shlAssign), ("&&=".toList, .andAssign), ("||=".toList, .orAssign),
    ("??=".toList, .coalesceAssign), ("?.".toList, .optional), ("??".toList, .coalesce), ("=>".toList, .arrow),
    ("<=".toList, .le), ("<<".toList, .shl), ("==".toList, .equal), ("!=".toList, .notEqual),
    ("**".toList, .starStar), ("++".toList, .increment), ("--".toList, .decrement), ("&&".toList, .andAnd),
    ("||".toList, .orOr), ("+=".toList, .plusAssign), ("-=".toList, .minusAssign), ("*=".toList, .starAssign),
    ("/=".toList, .slashAssign), ("%=".toList, .percentAssign), ("&=".toList, .ampAssign),
    ("|=".toList, .pipeAssign), ("^=".toList, .caretAssign), ("\x7b".toList, .lbrace), ("\x7d".toList, .rbrace),
    ("(".toList, .lparen), (")".toList, .rparen), ("[".toList, .lbracket), ("]".toList, .rbracket),
    (".".toList, .dot), (";".toList, .semi), (",".toList, .comma), (":".toList, .colon),
    ("?".toList, .question), ("@".toList, .at), ("#".toList, .hash), ("\x60".toList, .backtick),
    ("<".toList, .lt), (">".toList, .gt), ("+".toList, .plus), ("-".toList, .minus), ("*".toList, .star),
    ("/".toList, .slash), ("%".toList, .percent), ("&".toList, .amp), ("|".toList, .pipe), ("^".toList, .caret),
    ("!".toList, .bang), ("~".toList, .tilde), ("=".toList, .assign)]

/-- The operators that begin with a closing angle bracket, the longer before their beginnings. -/
def gtTable : List (Text × Punct) :=
  [
    (">>>=".toList, .ushrAssign), (">>>".toList, .ushr), (">>=".toList, .shrAssign), (">=".toList, .ge),
    (">>".toList, .shr)]

/-- The first entry of a table with which a text begins, its size and the rest of the text. -/
def Punct.ofText : List (Text × Punct) → Text → Option (Punct × Nat × Text)
  | [], _ => none
  | (part, p) :: entries, t =>
    match Text.dropPart? part t with
    | some rest => some (p, Text.size part, rest)
    | none => ofText entries t

/-- How tightly a binary operator binds; higher numbers bind tighter. -/
def Punct.power : Punct → Nat
  | .coalesce => 1
  | .orOr => 2
  | .andAnd => 3
  | .pipe => 4
  | .caret => 5
  | .amp => 6
  | .equal | .notEqual | .same | .notSame => 7
  | .lt | .le | .gt | .ge => 8
  | .shl | .shr | .ushr => 9
  | .plus | .minus => 10
  | .star | .slash | .percent => 11
  | .starStar => 12
  | _ => 0

/-- Assignment operators other than the plain one. -/
def Punct.isCompoundAssign : Punct → Bool
  | .plusAssign | .minusAssign | .starAssign | .slashAssign | .percentAssign | .starStarAssign | .shlAssign | .shrAssign
  | .ushrAssign | .ampAssign | .pipeAssign | .caretAssign | .andAssign | .orAssign | .coalesceAssign => true
  | _ => false

/-- What a scan may find. -/
inductive Token
  | endOfText
  /-- Nothing can be read here. -/
  | bad
  | word (role : Role) (name : Text)
  | punct (p : Punct)
  | number
  | bigint
  | string
  | regex
  /-- A piece of a template literal; the last one ends at the closing backtick. A piece may hold escapes that only a
  tagged template admits. -/
  | templatePiece (last wellFormed : Bool)
  /-- Text between markup tags. -/
  | markupText
deriving DecidableEq, Repr

/-- Whether the token is a word of any kind. -/
def Token.isWord : Token → Bool
  | .word _ _ => true
  | _ => false

/-- Whether the token is a word that may name something. -/
def Token.isName : Token → Bool
  | .word r _ => !r.isReserved
  | _ => false

end StyleHoist.Script
