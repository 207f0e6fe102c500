import StyleHoist.Path
import StyleHoist.Text.Word

/-!
# Advice

A cheap look at a text by which a host decides whether to offer extraction at all.

- `shouldOffer_no_line`: without a line the language and the look of the text decide.
-/

namespace StyleHoist

/-- Whether some end of a text satisfies `p`. -/
def Text.someSuffix (p : Text → Bool) : Text → Bool
  | [] => p []
  | c :: t => p (c :: t) || someSuffix p t

/-! ## Languages -/

/-- The languages whose files are offered extraction. -/
def supportedLanguages : List String :=
  ["javascript", "javascriptreact", "typescript", "typescriptreact"]

/-- The languages of file extensions. -/
def languagesByExtension : List (String × String) :=
  [("js", "javascript"), ("mjs", "javascript"), ("cjs", "javascript"), ("jsx", "javascriptreact"),
    ("ts", "typescript"), ("mts", "typescript"), ("cts", "typescript"), ("tsx", "typescriptreact")]

/-- The language of the file that a path names. -/
def languageOf? (path : String) : Option String := do
  let e ← Path.extension? path
  (languagesByExtension.find? fun l => l.1.toList == e).map (·.2)

/-! ## Texts -/

/-- Whether a text begins like the end of an import of the component module. -/
def beginsComponentSource (t : Text) : Bool :=
  match Text.dropPart? "from".toList t with
  | some rest =>
    match Text.trimStart rest with
    | q :: name =>
      (rest.head?).any Text.isBlankChar && (q == '\x27' || q == '\x22')
        && match Text.dropPart? "react-native".toList name with
          | some (e :: _) => e == '\x27' || e == '\x22'
          | _ => false
    | [] => false
  | none => false

/-- Whether a text begins with an import that mentions the component module on its line. -/
def beginsComponentImport (t : Text) : Bool :=
  match Text.dropPart? "import".toList t with
  | some rest => Text.mentions "react-native".toList (rest.takeWhile (· != '\n'))
  | none => false

/-- Names by which code for the components is known. -/
def componentNames : List Text :=
  ["View", "Text", "ScrollView", "TouchableOpacity", "Image", "StyleSheet"].map String.toList

/-- Whether a component is named as a word, `before` being the character in front of the text. -/
def namesComponent (before : Option Char) : Text → Bool
  | [] => false
  | c :: t =>
    isWordBoundary before (some c)
        && componentNames.any (fun name =>
          match Text.dropPart? name (c :: t) with
          | some rest => isWordBoundary name.getLast? rest.head?
          | none => false)
      || namesComponent (some c) t

/-- Whether a text imports the component module or names one of its components. -/
def looksLikeDialect (t : Text) : Bool :=
  Text.someSuffix beginsComponentSource t || Text.someSuffix beginsComponentImport t || namesComponent none t

/-- Whether a text begins with a style attribute that opens an object in braces, or a bracket. -/
def beginsInlineStyle (t : Text) : Bool :=
  match (Text.dropPart? "style".toList t).map Text.trimStart with
  | some ('=' :: rest) =>
    match Text.trimStart rest with
    | '[' :: _ | '\x7b' :: '\x7b' :: _ => true
    | _ => false
  | _ => false

/-- Whether a line gives a style in place. -/
def hasInlineStyle (line : Text) : Bool :=
  Text.someSuffix beginsInlineStyle line

/-! ## Advice -/

/-- What a look at a text says. -/
structure Advice where
  languageSupported : Bool
  looksLikeDialect : Bool
  /-- Nothing if no line was asked about. -/
  lineHasInlineStyle : Option Bool
deriving DecidableEq, Repr

/-- Whether a host should offer extraction. -/
def Advice.shouldOffer (a : Advice) : Bool :=
  a.languageSupported && a.looksLikeDialect && a.lineHasInlineStyle != some false

/-- Looks at a text in a language, and at one of its lines. -/
def advise (language : String) (t : Text) (line : Option Text) : Advice :=
  ⟨supportedLanguages.contains language, looksLikeDialect t, line.map hasInlineStyle⟩

theorem shouldOffer_no_line (supported dialect : Bool) :
    (Advice.mk supported dialect none).shouldOffer = (supported && dialect) := by
  simp [Advice.shouldOffer]

end StyleHoist
