import Unmangle.Tree.Operator
import Unmangle.Grammar.Template

/-!
# Names

A nested name is a run of components, each inside the one before. Its proper
beginnings are listed for substitution, in the order in which they end.
-/
namespace Unmangle.Parse

/-- An identifier as a name. One that begins `_GLOBAL__N` was made up for a
namespace without a name. -/
def sourceName : Parse NodeId := do
  let (text, bytes) ← identifierFrom
  if (bytes.strip? "_GLOBAL__N".toList).isSome then
    makeName "(anonymous namespace)"
  else
    make (.name text)

/-- Every tag `B <source-name>` behind a name. -/
def abiTags (name : NodeId) : Parse NodeId :=
  untilHolds (return !(← lookingAt "B")) name fun base => do
    expect "B"
    make (.abiTagged base (← identifier))

/-- `Ul <type>+ E [<number>] _` for a closure, or `Ut [<number>] _`. -/
def unnamedTypeName (call : Calls) : Parse NodeId := do
  if ← accept "Ut" then
    let count ← number false
    expect "_"
    make (.unnamedType count)
  else if ← accept "Ul" then
    let state ← get
    let depth := state.work.scopes.levels.size
    let outerLambda := state.lambdaLevel
    modify fun state => { state with lambdaLevel := some depth }
    let params ← (lambdaParams call).thenAlways fun after =>
      let scopes := { after.work.scopes with levels := after.work.scopes.levels.take depth }
      { after with work := { after.work with scopes := scopes }, lambdaLevel := outerLambda }
    let count ← number false
    expect "_"
    make (.closureType params count)
  else
    unexpected
where
  lambdaParams (call : Calls) : Parse NodeList := do
    let params ← (if (← accept "vE") then pure #[] else someNodes (accept "E") (call .type))
    makeList params

/-- A component inside what was read before it. -/
def component (scope : Option NodeId) (part : NodeId) (tracked : Bool) : Parse NodeId := do
  let node ← (match scope with
    | some scope => make (.nestedName scope part)
    | none => pure part)
  learn tracked fun facts => { facts with endsWithTemplateArgs := false }
  return node

/-- The name read is one of a function without a result type. -/
def resultless (tracked : Bool) : Parse Unit :=
  learn tracked fun facts => { facts with isResultless := true }

/-- A name in front of a constructor or destructor. An abbreviation is spelled out
there. -/
def structorScope (scope : NodeId) : Parse NodeId := do
  match ← node scope with
  | .abbreviation short => make (.expandedAbbreviation short)
  | _ => return scope

/-- `1` to `5`, and `I` and the base class before it for an inherited one. -/
def constructorName (call : Calls) (scope : NodeId) (tracked : Bool) : Parse NodeId := do
  let inheriting ← accept "I"
  let kind ← peek
  ensure ('1' ≤ kind ∧ kind ≤ '5') unexpected
  advance 1
  resultless tracked
  (if inheriting then discard (call (.name tracked)) else pure ())
  make (.constructorName scope)

def destructorName (scope : NodeId) (tracked : Bool) : Parse NodeId := do
  advance 2
  resultless tracked
  make (.destructorName scope)

/-- Whether a letter behind `D` is a kind of destructor. -/
def isDestructorKind (kind : Char) : Bool :=
  ['0', '1', '2', '4', '5'].contains kind

/-- A constructor or destructor of what was read before it. -/
def structorName (call : Calls) (scope : NodeId) (tracked : Bool) : Parse NodeId := do
  if ← accept "C" then
    constructorName call scope tracked
  else
    let (first, second) ← peekPair
    if first == 'D' && isDestructorKind second then
      destructorName scope tracked
    else
      unexpected

/-- One component of a nested name, behind what was read before it. -/
def nestedPart (call : Calls) (tracked : Bool) (scope : Option NodeId) :
    Parse (Option NodeId) := do
  ensure (!(← atEnd)) (throw .unexpectedEnd)
  discard (accept "L")
  if ← accept "M" then
    ensure scope.isSome (throw .unexpectedText)
    return scope
  match ← peekPair with
  | ('T', _) => listedPart (← templateParam)
  | ('I', _) =>
    let name ← orFault scope .unexpectedText
    let node ← instantiate call tracked name
    enlist node
    return some node
  | ('D', 't') | ('D', 'T') => listedPart (← call .decltype)
  | (first, second) =>
    if first == 'S' && second != 't' then
      let listed ← call .substitution
      let node ← component scope listed tracked
      (if node = listed then pure () else enlist node)
      return some node
    else if (first == 'C' || first == 'D') && second != 'C' then
      let inside ← structorScope (← orFault scope .unexpectedText)
      let structor ← structorName call inside tracked
      let node ← abiTags (← component (some inside) structor tracked)
      enlist node
      return some node
    else
      listedPart (← call (.unqualifiedName tracked))
where
  listedPart (part : NodeId) : Parse (Option NodeId) := do
    let node ← component scope part tracked
    enlist node
    return some node

/-- `O` for an rvalue object, `R` for an lvalue object, or neither. -/
def refQualifier : Parse (Option Reference) := do
  if ← accept "O" then return some .rvalue
  if ← accept "R" then return some .lvalue
  return none

/-- `N [<qualifiers>] [<ref-qualifier>] <component>+ E`, every part listed. -/
def nestedParts (call : Calls) (tracked : Bool) : Parse NodeId := do
  expect "N"
  let quals ← qualifiers
  let ref ← refQualifier
  learn tracked fun facts => { facts with quals := quals, ref := ref }
  let start ← (if (← accept "St") then some <$> makeName "std" else pure none)
  let complete ← untilHolds (accept "E") start (nestedPart call tracked)
  orFault complete .unexpectedText

/-- A nested name. The complete name is no beginning of another, so it goes off the
list again. -/
def nestedName (call : Calls) (tracked : Bool) : Parse NodeId := do
  let complete ← nestedParts call tracked
  delist
  return complete

/-- `Z <encoding> E` and an entity, a string literal `s`, or a parameter's
default argument `d [<number>] _`. -/
def localName (call : Calls) (tracked : Bool) : Parse NodeId := do
  expect "Z"
  let encoding ← call .encoding
  expect "E"
  if ← accept "s" then
    skipDiscriminator
    make (.localName encoding (← makeName "string literal"))
  else if ← accept "d" then
    discard (number true)
    expect "_"
    make (.localName encoding (← call (.name tracked)))
  else
    let entity ← call (.name tracked)
    skipDiscriminator
    make (.localName encoding entity)

/-- A two-letter code, `cv <type>` for a conversion, `li <source-name>` for a
literal operator, or `v <digit> <source-name>` for one of a vendor. -/
def operatorName (call : Calls) (tracked : Bool) : Parse NodeId := do
  let (first, second) ← peekPair
  match Operator.find? first second with
  | some operator =>
    advance 2
    if operator.form == .cast then
      conversionName call tracked
    else
      makeName (← orFault operator.name .unexpectedText)
  | none =>
    if ← accept "li" then
      make (.literalOperator (← sourceName))
    else if first == 'v' && second.isDigit then
      advance 2
      make (.conversionName (← sourceName))
    else
      unexpected
where
  /-- Arguments behind a conversion's type belong to the name around it, and the
  type may refer to them. -/
  conversionName (call : Calls) (tracked : Bool) : Parse NodeId := do
    let before ← get
    let argsAllowed := before.templateArgsAllowed
    let forwardAllowed := before.forwardAllowed
    modify fun state =>
      { state with templateArgsAllowed := false, forwardAllowed := forwardAllowed || tracked }
    let type ← (call .type).thenAlways fun after =>
      { after with templateArgsAllowed := argsAllowed, forwardAllowed := forwardAllowed }
    resultless tracked
    make (.conversionName type)

/-- `DC <source-name>+ E`, the names of a structured binding. -/
def structuredBinding : Parse NodeId := do
  advance 2
  let names ← someNodes (accept "E") sourceName
  make (.structuredBinding (← makeList names))

/-- An operator, an identifier, an unnamed type, or a structured binding. -/
def unqualifiedName (call : Calls) (tracked : Bool) : Parse NodeId := do
  let (first, second) ← peekPair
  let name ←
    (if first == 'U' then unnamedTypeName call
    else if '1' ≤ first ∧ first ≤ '9' then sourceName
    else if first == 'D' && second == 'C' then structuredBinding
    else call (.operatorName tracked))
  abiTags name

/-- A name at the top, or `St` and a name in the standard library. -/
def unscopedName (call : Calls) (tracked : Bool) : Parse NodeId := do
  if ← accept "St" then
    discard (accept "L")
    make (.stdName (← call (.unqualifiedName tracked)))
  else
    discard (accept "L")
    call (.unqualifiedName tracked)

/-- Any name. A substitution is one only with template arguments, and an unscoped
name is listed only in front of them. -/
def name (call : Calls) (tracked : Bool) : Parse NodeId := do
  let (first, second) ← peekPair
  if first == 'N' then call (.nestedName tracked)
  else if first == 'Z' then call (.localName tracked)
  else if first == 'S' && second != 't' then
    let listed ← call .substitution
    ensure ((← peek) == 'I') unexpected
    instantiate call tracked listed
  else
    let name ← unscopedName call tracked
    if (← peek) == 'I' then
      enlist name
      instantiate call tracked name
    else
      return name

/-- `S_` for the first listed component, `S <seq-id> _` for a later one, or the
letter of an abbreviation. -/
def substitution : Parse NodeId := do
  expect "S"
  let letter ← peek
  if letter.isLower then
    let short ← orFault (Abbreviation.ofCode? letter) .unexpectedText
    advance 1
    let plain ← make (.abbreviation short)
    let tagged ← abiTags plain
    (if tagged = plain then pure () else enlist tagged)
    return tagged
  else if ← accept "_" then
    listed 0
  else
    let index ← orFault (Number.succ? (← seqId)) .overflow
    expect "_"
    listed index

end Unmangle.Parse
