import StyleHoist.Script.Grammar.Function

/-!
# Markup

Elements and fragments, their attributes, and what stands between their tags. The text between tags is no code, so every
step into and out of it names the scanner that reads on.
-/

namespace StyleHoist.Script

/-- What reads on after the last bracket of markup. -/
def Scanner.afterTag (nested : Bool) : Scanner :=
  if nested then .markupText else .code

/-- A word of a name in markup. -/
def markupWord : Read Text := do
  unless (← token).isWord do fail
  rescan scanMarkupName
  match ← token with
  | .word _ w =>
    bump
    return w
  | _ => fail

/-- The name of a tag: a word, two words around a colon, or words with dots between them. -/
def tagName : Read Text := do
  let first ← markupWord
  if ← eat .colon then
    let second ← markupWord
    return first ++ ':' :: second
  else
    iterate
      (fun w => do
        if ← eat .dot then
          let next ← markupWord
          return .inl (w ++ '.' :: next)
        else return .inr w)
      first

/-- A value between braces as an attribute. -/
def attributeContainer (g : Knot) : Read Node := do
  let start ← offset
  expect .lbrace
  let value ← g .expression
  expect .rbrace
  finish start .container [value]

/-- An attribute or spread of a tag. -/
def tagAttribute (g : Knot) : Read Node := do
  let start ← offset
  if ← eat .lbrace then
    expect .ellipsis
    let value ← g .assignment
    expect .rbrace
    finish start .spread [value]
  else
    let first ← markupWord
    let isSingle ←
      if ← eat .colon then
        let _ ← markupWord
        pure false
      else pure true
    let name := if isSingle then some first else none
    if ← atPunct .assign then
      bump .markupValue
      let valueStart ← offset
      let value ←
        match ← token with
        | .string =>
          bump
          finish valueStart .string []
        | .punct .lbrace => attributeContainer g
        | .punct .lt => g (.markup false)
        | _ => fail
      finish start (.tagAttribute name) [value]
    else finish start (.tagAttribute name) []

/-- What stands between braces among the children of an element, with the braces. -/
def childContainer (g : Knot) : Read Node := do
  let start ← offset
  expect .lbrace
  let isSpread ← eat .ellipsis
  if !isSpread && (← atPunct .rbrace) then
    expect .rbrace .markupText
    finish start .form []
  else
    let value ← g .expression
    expect .rbrace .markupText
    finish start .form [value]

/-- The children up to the tag that closes the element, which is passed. The closing tag has to name the opening one,
and a fragment has no name. -/
def markupChildren (g : Knot) (nested : Bool) (opened : Option Text) : Read (List Node) :=
  iterate
    (fun found => do
      match ← token with
      | .markupText =>
        bump .markupBracket
        return .inl found
      | .punct .lbrace =>
        let child ← childContainer g
        return .inl (child :: found)
      | .punct .lt =>
        if ← peekPunct .slash then
          bump
          bump
          let closed ← if ← atPunct .gt then pure none else some <$> tagName
          if closed != opened then fail
          expect .gt (.afterTag nested)
          return .inr found.reverse
        else
          let child ← g (.markup true)
          return .inl (child :: found)
      | _ => fail)
    ([] : List Node)

/-- The attributes of a tag. -/
def tagAttributes (g : Knot) : Read (List Node) :=
  collect do
    match ← token with
    | .punct .gt | .punct .slash => return none
    | _ => some <$> tagAttribute g

/-- An element or fragment. -/
def markup (g : Knot) (nested : Bool) : Read Node := do
  let start ← offset
  expect .lt
  if ← atPunct .gt then
    bump .markupText
    let children ← markupChildren g nested none
    finish start .fragment children
  else
    let name ← tagName
    let arguments ←
      if ← atAngle then (·.getD []) <$> attempt (typeArguments g) else pure []
    let attrs ← tagAttributes g
    if ← eat .slash then
      expect .gt (.afterTag nested)
      finish start .element (arguments ++ attrs)
    else
      expect .gt .markupText
      let children ← markupChildren g nested (some name)
      finish start .element (arguments ++ attrs ++ children)

end StyleHoist.Script
