import Unmangle.Grammar.Name

/-!
# Expressions

An expression begins with the code of its operator, followed by the operands. An
expression without operator is a literal, a parameter or a name.
-/
namespace Unmangle

/-- The expressions that begin with a word and not with an operator. -/
inductive WordForm
  | initList
  /-- Initializers behind their type. -/
  | typedInitList
  | throw
  | rethrow
  | noexcept
  | expansion
  | packSize
  /-- The size of a pack that is written out. -/
  | elementCount
  deriving Repr, DecidableEq, Inhabited

namespace WordForm

/-- The form that two letters announce. -/
def ofLetters? : Char → Char → Option WordForm
  | 'i', 'l' => some initList
  | 't', 'l' => some typedInitList
  | 't', 'w' => some throw
  | 't', 'r' => some rethrow
  | 'n', 'x' => some noexcept
  | 's', 'p' => some expansion
  | 's', 'Z' => some packSize
  | 's', 'P' => some elementCount
  | _, _ => none

end WordForm

/-- What an initializer initializes, where it says so. -/
inductive InitializerForm
  | field
  | element
  | range
  deriving Repr, DecidableEq, Inhabited

namespace InitializerForm

/-- The form that two letters announce. -/
def ofLetters? : Char → Char → Option InitializerForm
  | 'd', 'i' => some field
  | 'd', 'x' => some element
  | 'd', 'X' => some range
  | _, _ => none

end InitializerForm

namespace Parse

/-- `fpT` for `this`, or `fp` and `fL <number> p` with qualifiers, a number and
`_` for a parameter. -/
def functionParam : Parse NodeId := do
  if ← accept "fpT" then
    makeName "this"
  else if ← accept "fp" then
    numbered
  else if ← accept "fL" then
    ensure (!(← number false).isEmpty) unexpected
    expect "p"
    numbered
  else
    unexpected
where
  numbered : Parse NodeId := do
    discard qualifiers
    let number ← number false
    expect "_"
    make (.functionParam number)

/-- From which side a fold goes, and whether there is a value beside the pack. -/
def foldSide? : Char → Option (Bool × Bool)
  | 'l' => some (true, false)
  | 'r' => some (false, false)
  | 'L' => some (true, true)
  | 'R' => some (false, true)
  | _ => none

/-- `fl` and `fr` fold a pack, `fL` and `fR` a pack and a value. The operand that
comes first in the expression comes first in the symbol. -/
def fold (call : Calls) : Parse NodeId := do
  expect "f"
  let some (fromLeft, hasInit) := foldSide? (← peek) | unexpected
  advance 1
  let (first, second) ← peekPair
  match Operator.find? first second with
  | none => unexpected
  | some operator =>
    ensure operator.foldable (throw .unexpectedText)
    advance 2
    let first ← call .expression
    let second ← (if hasInit then some <$> call .expression else pure none)
    match fromLeft, second with
    | true, some pack => make (.fold fromLeft operator.symbol pack (some first))
    | _, _ => make (.fold fromLeft operator.symbol first second)

/-- `E` for none, or `pi <expression>* E` -/
def initializers (call : Calls) : Parse (Array NodeId) := do
  if ← accept "pi" then
    nodesUntil "E" (call .expression)
  else
    expect "E"
    return #[]

/-- `<expression>* _ <type>` and the initializers -/
def new (call : Calls) (isGlobal isArray : Bool) : Parse NodeId := do
  let placement ← nodesUntil "_" (call .expression)
  let type ← call .type
  let inits ← initializers call
  let placement ← makeList placement
  make (.new placement type (← makeList inits) isGlobal isArray)

/-- `<expression>` or `_ <expression>* E` -/
def conversionOperands (call : Calls) : Parse (Array NodeId) := do
  if ← accept "_" then
    nodesUntil "E" (call .expression)
  else
    return #[← call .expression]

/-- A type and the operands. Arguments behind the type do not belong to it. -/
def conversion (call : Calls) : Parse NodeId := do
  let allowed := (← get).templateArgsAllowed
  modify fun state => { state with templateArgsAllowed := false }
  let type ← (call .type).thenAlways fun after => { after with templateArgsAllowed := allowed }
  let operands ← conversionOperands call
  make (.conversion type (← makeList operands))

/-- An expression whose operator was read, by the form of the operator. -/
def operation (call : Calls) (operator : Operator) (isGlobal : Bool) : Parse NodeId := do
  match operator.form with
  | .binary =>
    let left ← call .expression
    let right ← call .expression
    make (.binary left operator.symbol right)
  | .leading =>
    make (.leading operator.symbol (← call .expression))
  | .trailing =>
    if ← accept "_" then
      make (.leading operator.symbol (← call .expression))
    else
      make (.trailing (← call .expression) operator.symbol)
  | .subscript =>
    let base ← call .expression
    let index ← call .expression
    make (.subscript base index)
  | .member =>
    let left ← call .expression
    let right ← call .expression
    make (.member left operator.symbol right)
  | .new isArray => new call isGlobal isArray
  | .delete isArray =>
    make (.delete (← call .expression) isGlobal isArray)
  | .call =>
    let callee ← call .expression
    let args ← nodesUntil "E" (call .expression)
    make (.call callee (← makeList args))
  | .cast => conversion call
  | .conditional =>
    let condition ← call .expression
    let yes ← call .expression
    let no ← call .expression
    make (.conditional condition yes no)
  | .namedCast =>
    let type ← call .type
    let operand ← call .expression
    make (.namedCast operator.symbol type operand)
  | .ofType =>
    make (.enclosing operator.symbol (← call .type))
  | .ofExpression =>
    make (.enclosing operator.symbol (← call .expression))

def bracedList (call : Calls) : Parse NodeList := do
  makeList (← nodesUntil "E" (call .bracedExpression))

/-- The size of a pack: of a template parameter or of a function parameter. -/
def packSize : Parse NodeId := do
  match ← peek with
  | 'T' => make (.packSize (← templateParam))
  | 'f' => make (.enclosing "sizeof... " (← functionParam))
  | _ => unexpected

/-- What follows the word of an expression. -/
def behindWord (call : Calls) : WordForm → Parse NodeId
  | .initList => do
    make (.initList none (← bracedList call))
  | .typedInitList => do
    let type ← call .type
    make (.initList (some type) (← bracedList call))
  | .throw => do
    make (.throw (← call .expression))
  | .rethrow => makeName "throw"
  | .noexcept => do
    make (.enclosing "noexcept " (← call .expression))
  | .expansion => do
    make (.expansion (← call .expression))
  | .packSize => packSize
  | .elementCount => do
    let args ← nodesUntil "E" (call .templateArg)
    let pack ← make (.elements (← makeList args))
    make (.enclosing "sizeof... " pack)

/-- An expression that begins with neither a literal, a parameter nor an operator. -/
def wordExpression (call : Calls) (isGlobal : Bool) : Parse NodeId := do
  let (first, second) ← peekPair
  match WordForm.ofLetters? first second with
  | some form =>
    advance 2
    behindWord call form
  | none => call (.unresolvedName isGlobal)

/-- Any expression, with `gs` before it where it is looked up globally. It is at
least two bytes long. -/
def expression (call : Calls) : Parse NodeId := do
  let isGlobal ← accept "gs"
  ensure (!(← get).cursor.rest.tail.isEmpty) (throw .unexpectedEnd)
  let (first, second) ← peekPair
  match first with
  | 'L' => call .literal
  | 'T' => templateParam
  | 'f' =>
    if second == 'p' || (second == 'L' && (← peekAt 2).isDigit) then functionParam
    else fold call
  | _ =>
    match Operator.find? first second with
    | some operator =>
      advance 2
      operation call operator isGlobal
    | none => wordExpression call isGlobal

/-- What is initialized, and with what. -/
def initializer (call : Calls) : InitializerForm → Parse NodeId
  | .field => do
    let field ← sourceName
    make (.fieldInit field (← call .bracedExpression))
  | .element => do
    let index ← call .expression
    make (.indexInit index (← call .bracedExpression))
  | .range => do
    let first ← call .expression
    let last ← call .expression
    make (.rangeInit first last (← call .bracedExpression))

/-- An initializer: of a field `di`, of an element `dx`, of a range `dX`, or an
expression. -/
def bracedExpression (call : Calls) : Parse NodeId := do
  let (first, second) ← peekPair
  match InitializerForm.ofLetters? first second with
  | some form =>
    advance 2
    initializer call form
  | none => call .expression

/-- An identifier with its template arguments, if any follow. -/
def simpleId (call : Calls) : Parse NodeId := do
  instantiateIfArgs call (← sourceName)

/-- Identifiers up to `E`, each inside what was read before it. -/
def simpleIds (call : Calls) (scope : NodeId) : Parse NodeId :=
  untilHolds (accept "E") scope fun scope => do
    make (.qualifiedName scope (← simpleId call))

/-- At least one identifier, the outermost looked up globally where that is asked. -/
def namedScopes (call : Calls) (isGlobal : Bool) : Parse NodeId := do
  let outermost ← simpleId call
  simpleIds call (← (if isGlobal then make (.globalName outermost) else pure outermost))

/-- A type that names are looked up in. -/
def typeScope (call : Calls) : Parse NodeId := do
  instantiateIfArgs call (← call .unresolvedType)

/-- A name inside a type or inside named scopes: `srN <unresolved-type> <simple-id>* E`,
`sr <simple-id>+ E`, `sr <unresolved-type>`, or nothing, before the last part. -/
def unresolvedName (call : Calls) (isGlobal : Bool) : Parse NodeId := do
  if ← accept "srN" then
    let scope ← simpleIds call (← typeScope call)
    make (.qualifiedName scope (← call .baseUnresolvedName))
  else if ← accept "sr" then
    let scope ← (if (← peek).isDigit then namedScopes call isGlobal else typeScope call)
    make (.qualifiedName scope (← call .baseUnresolvedName))
  else
    let base ← call .baseUnresolvedName
    if isGlobal then make (.globalName base) else return base

/-- A template parameter or a `decltype`, listed when it ends, or a substitution. -/
def unresolvedType (call : Calls) : Parse NodeId := do
  match ← peek with
  | 'T' =>
    let param ← templateParam
    enlist param
    return param
  | 'D' =>
    let type ← call .decltype
    enlist type
    return type
  | _ => call .substitution

/-- The last part of an unresolved name: an identifier, a destructor `dn`, or an
operator, with `on` before it or without. -/
def baseUnresolvedName (call : Calls) : Parse NodeId := do
  if (← peek).isDigit then
    simpleId call
  else if ← accept "dn" then
    let type ← (if (← peek).isDigit then simpleId call else call .unresolvedType)
    make (.destroyed type)
  else
    discard (accept "on")
    instantiateIfArgs call (← call (.operatorName false))

end Parse
end Unmangle
