import Unmangle.Grammar.Name

/-!
# Types

Every type but a built-in one or a plain substitution is listed for substitution
when it ends, after its own parts.
-/
namespace Unmangle

/-- What a type is made of, as its first letters tell. -/
inductive TypeKind
  /-- A built-in type of one letter. -/
  | builtin (words : String)
  /-- A built-in type of two letters. -/
  | extended (words : String)
  /-- Another rule, whose type is listed. -/
  | listed (rule : Rule)
  /-- Qualifiers and what they qualify, which may be a function. -/
  | qualified
  | vendor
  | binaryFloat
  | expansion
  | parameter
  | pointer
  | reference (kind : Reference)
  /-- A type with words behind it. -/
  | trailing (words : String)
  | substitution
  | unknown
  deriving Repr, DecidableEq, Inhabited

namespace TypeKind

/-- The kind that `D` and a letter announce. -/
def behindD (letter : Char) : TypeKind :=
  match letter with
  | 'F' => binaryFloat
  | 't' | 'T' => listed .decltype
  | 'p' => expansion
  | 'v' => listed .vectorType
  | 'o' | 'O' | 'w' | 'x' => listed .functionType
  | _ =>
    match Builtin.extendedSpelling? letter with
    | some words => extended words
    | none => unknown

/-- The kind that two letters announce. What no letter announces is a named type. -/
def ofLetters (first second : Char) : TypeKind :=
  match Builtin.spelling? first with
  | some words => builtin words
  | none =>
    match first with
    | 'r' | 'V' | 'K' => qualified
    | 'U' => listed .qualifiedType
    | 'u' => vendor
    | 'D' => behindD second
    | 'F' => listed .functionType
    | 'A' => listed .arrayType
    | 'M' => listed .memberPointerType
    | 'T' => if second == 's' || second == 'u' || second == 'e' then listed .namedType else parameter
    | 'P' => pointer
    | 'R' => reference .lvalue
    | 'O' => reference .rvalue
    | 'C' => trailing " complex"
    | 'G' => trailing " imaginary"
    | 'S' => if second != 't' then substitution else listed .namedType
    | _ => listed .namedType

/-- A `D` letter with a spelling of its own is read as that spelling. -/
theorem behindD_of_extendedSpelling? {letter : Char} {words : String}
    (found : Builtin.extendedSpelling? letter = some words) : behindD letter = extended words := by
  unfold behindD
  split
  all_goals first
    | cases found
    | rw [found]

theorem ofLetters_of_spelling? {first second : Char} {words : String}
    (found : Builtin.spelling? first = some words) : ofLetters first second = builtin words := by
  unfold ofLetters
  rw [found]

def rules : List Rule :=
  [.decltype, .vectorType, .functionType, .arrayType, .memberPointerType, .namedType]

/-- What the letters of a kind can be. -/
def Begins (first second : Char) : TypeKind → Prop
  | builtin words => Builtin.spelling? first = some words
  | extended words => first = 'D' ∧ Builtin.extendedSpelling? second = some words
  | listed rule => first = 'U' ∧ rule = .qualifiedType ∨ rule ∈ rules
  | qualified => first ∈ ['r', 'V', 'K']
  | vendor => first = 'u'
  | binaryFloat => first = 'D' ∧ second = 'F'
  | expansion => first = 'D' ∧ second = 'p'
  | parameter => first = 'T'
  | pointer => first = 'P'
  | reference _ => first ∈ ['R', 'O']
  | trailing words => first ∈ ['C', 'G'] ∧ words ∈ [" complex", " imaginary"]
  | substitution => first = 'S'
  | unknown => first = 'D'

theorem begins_behindD (letter : Char) : (behindD letter).Begins 'D' letter := by
  unfold behindD
  cases found : Builtin.extendedSpelling? letter with
  | some words => split <;> simp [Begins, rules, found]
  | none => split <;> simp [Begins, rules]

theorem begins_ofLetters (first second : Char) : (ofLetters first second).Begins first second := by
  unfold ofLetters
  cases found : Builtin.spelling? first with
  | some words => exact found
  | none =>
    dsimp only
    split
    all_goals first
      | exact begins_behindD second
      | simp [Begins, rules]; done
      | split <;> simp [Begins, rules]

end TypeKind

namespace Parse

/-- A type that is listed when it ends. -/
def listing (type : Parse NodeId) : Parse NodeId := do
  let id ← type
  enlist id
  return id

def isQualifier (byte : UInt8) : Bool :=
  byte == 114 || byte == 86 || byte == 75

/-- Whether a function type comes behind the qualifiers. They are then its own. -/
def qualifiesFunction : Parse Bool := do
  let (_, behind) := (← get).cursor.spanWhile isQualifier
  match behind.peekAt 0, behind.peekAt 1 with
  | 'F', _ | 'D', 'o' | 'D', 'O' | 'D', 'w' | 'D', 'x' => return true
  | _, _ => return false

/-- `DF <number> _` -/
def binaryFloat : Parse NodeId := do
  advance 2
  let width ← number false
  ensure (!width.isEmpty) unexpected
  expect "_"
  make (.binaryFloat width)

/-- A template parameter, which is listed on its own when arguments follow. -/
def parameterType (call : Calls) : Parse NodeId := do
  let param ← templateParam
  if (← get).templateArgsAllowed && (← peek) == 'I' then
    enlist param
    instantiate call false param
  else
    return param

/-- A substitution, which is a new type only with template arguments. -/
def substitutionType (call : Calls) : Parse NodeId := do
  let listed ← call .substitution
  if (← get).templateArgsAllowed && (← peek) == 'I' then
    listing (instantiate call false listed)
  else
    return listed

def wrappedType (call : Calls) (wrap : NodeId → Node) : Parse NodeId := do
  advance 1
  make (wrap (← call .type))

/-- Any type, by its first letters. -/
def type (call : Calls) : Parse NodeId := do
  let (first, second) ← peekPair
  match TypeKind.ofLetters first second with
  | .builtin words =>
    advance 1
    makeName words
  | .extended words =>
    advance 2
    makeName words
  | .listed rule => listing (call rule)
  | .qualified =>
    listing do
      if ← qualifiesFunction then call .functionType else call .qualifiedType
  | .vendor =>
    advance 1
    listing do make (.name (← identifier))
  | .binaryFloat => listing binaryFloat
  | .expansion =>
    advance 2
    listing do make (.expansion (← call .type))
  | .parameter => listing (parameterType call)
  | .pointer => listing (wrappedType call .pointer)
  | .reference kind => listing (wrappedType call (.reference kind))
  | .trailing words => listing (wrappedType call (.trailingQualified · words))
  | .substitution => substitutionType call
  | .unknown => unexpected

/-- `U <source-name>` for a vendor's qualifier, then the usual qualifiers. -/
def qualifiedType (call : Calls) : Parse NodeId := do
  if ← accept "U" then
    let extension ← identifier
    make (.vendorQualified (← call .qualifiedType) extension)
  else
    let quals ← qualifiers
    let type ← call .type
    if quals.isEmpty then return type else make (.qualified type quals)

/-- What a function may throw: `Do`, `DO <expression> E` or `Dw <type>* E`. -/
def exceptionSpec (call : Calls) : Parse (Option NodeId) := do
  if ← accept "Do" then
    some <$> makeName "noexcept"
  else if ← accept "DO" then
    let condition ← call .expression
    expect "E"
    some <$> make (.noexceptSpec condition)
  else if ← accept "Dw" then
    let types ← nodesUntil "E" (call .type)
    some <$> make (.throwSpec (← makeList types))
  else
    return none

/-- Whether the parameters end here. A reference qualifier may come before the
closing letter. -/
def atParamsEnd : Parse Bool := do
  if ← lookingAt "E" then return true
  if ← lookingAt "RE" then return true
  lookingAt "OE"

/-- The parameters of a function type. `v` stands for none wherever it is. -/
def functionParams (call : Calls) : Parse (Array NodeId) :=
  untilHolds atParamsEnd #[] fun params => do
    if ← accept "v" then return params
    return params.push (← call .type)

/-- `[<qualifiers>] [<exception-spec>] [Dx] F [Y] <type> <type>* [<ref-qualifier>] E` -/
def functionType (call : Calls) : Parse NodeId := do
  let quals ← qualifiers
  let exception ← exceptionSpec call
  discard (accept "Dx")
  expect "F"
  discard (accept "Y")
  let result ← call .type
  let params ← functionParams call
  let ref ← refQualifier
  expect "E"
  make (.functionType result (← makeList params) quals ref exception)

/-- An expression and `_`, or `_` alone. -/
def computedDimension (call : Calls) : Parse (Option NodeId) := do
  if ← accept "_" then
    return none
  let size ← call .expression
  expect "_"
  return some size

/-- A number as it is written, or a computed dimension. -/
def arrayDimension (call : Calls) : Parse (Option NodeId) := do
  if (← peek).isDigit then
    let number ← number false
    expect "_"
    return some (← make (.name number))
  else
    computedDimension call

/-- `A [<number>] _ <type>` or `A <expression> _ <type>` -/
def arrayType (call : Calls) : Parse NodeId := do
  expect "A"
  let dimension ← arrayDimension call
  make (.array (← call .type) dimension)

/-- `M <type> <type>` -/
def memberPointerType (call : Calls) : Parse NodeId := do
  expect "M"
  let scope ← call .type
  let member ← call .type
  make (.memberPointer scope member)

/-- The keyword that `Ts`, `Tu` or `Te` stands for. -/
def typeKeyword : Parse (Option String) := do
  if ← accept "Ts" then return some "struct"
  if ← accept "Tu" then return some "union"
  if ← accept "Te" then return some "enum"
  return none

/-- A name, with its keyword where that is written. -/
def namedType (call : Calls) : Parse NodeId := do
  let keyword ← typeKeyword
  let name ← call (.name false)
  match keyword with
  | some keyword => make (.elaborated keyword name)
  | none => return name

/-- `Dt <expression> E` or `DT <expression> E` -/
def decltype (call : Calls) : Parse NodeId := do
  let opened ← (if (← accept "Dt") then pure true else accept "DT")
  ensure opened unexpected
  let inner ← call .expression
  expect "E"
  make (.enclosing "decltype" inner)

/-- `Dv [<number>] _ <type>` or `Dv <expression> _ <type>`. Behind a number `p`
stands for a pixel. -/
def vectorType (call : Calls) : Parse NodeId := do
  expect "Dv"
  let first ← peek
  if '1' ≤ first ∧ first ≤ '9' then
    let dimension ← make (.name (← number false))
    expect "_"
    if ← accept "p" then
      make (.pixelVector dimension)
    else
      make (.vector (← call .type) (some dimension))
  else
    let dimension ← computedDimension call
    make (.vector (← call .type) dimension)

end Parse
end Unmangle
