import Unmangle.Spelling.HexFloat
import Unmangle.Spelling.Speller

/-!
# Left halves

What a node is spelled as before the name that it declares. All of most nodes
stands there.
-/
namespace Unmangle.Speller

open Print

variable (speller : Speller)

/-- An operator between two operands in parentheses. One that could close a
template argument list has parentheses around all of it. -/
def binary (left : NodeId) (symbol : String) (right : NodeId) : Print Unit := do
  whenever (symbol == ">") (write "(")
  speller.parenthesized left
  write " "
  write symbol
  write " "
  speller.parenthesized right
  whenever (symbol == ">") (write ")")

/-- An operator as it stands between the parts of a fold. -/
def foldOperator (symbol : String) : Print Unit := do
  write " "
  write symbol
  write " "

/-- A fold in its parentheses. The ellipsis is on the side where the fold begins. -/
def fold (fromLeft : Bool) (symbol : String) (pack : NodeId) (init : Option NodeId) :
    Print Unit := do
  write "("
  (if fromLeft then onTheLeft else onTheRight)
  write ")"
where
  onTheLeft : Print Unit := do
    ifAny init fun init => do
      speller.spell init
      foldOperator symbol
    write "..."
    foldOperator symbol
    packInParentheses
  onTheRight : Print Unit := do
    packInParentheses
    foldOperator symbol
    write "..."
    ifAny init fun init => do
      foldOperator symbol
      speller.spell init
  packInParentheses : Print Unit := do
    write "("
    speller.expand pack
    write ")"

/-- The placement and the initializers are in parentheses, and left out when empty. -/
def newExpression (placement : NodeList) (type : NodeId) (inits : NodeList)
    (isGlobal isArray : Bool) : Print Unit := do
  whenever isGlobal (write "::")
  write "new"
  whenever isArray (write "[]")
  write " "
  whenever (!placement.isEmpty) do
    speller.parenthesizedList placement
    write " "
  speller.spell type
  whenever (!inits.isEmpty) (speller.parenthesizedList inits)

/-- A literal of a floating-point type. -/
def float (format : FloatFormat) (bits : Text) : Print Unit := do
  match HexFloat.spelling? format (← bytes speller.symbol bits).data.toList with
  | some words => write words
  | none => throw .unexpectedText

/-- The left half of a node. -/
def left : Node → Print Unit
  -- names
  | .name text => speller.text text
  | .nestedName scope name | .localName scope name | .qualifiedName scope name => do
    speller.spell scope
    write "::"
    speller.spell name
  | .stdName name => do
    write "std::"
    speller.spell name
  | .globalName name => do
    write "::"
    speller.spell name
  | .instantiation name args => do
    speller.spell name
    speller.spell args
  | .templateArgs args => do
    write "<"
    speller.list args
    -- two closing brackets in a row would read as a shift
    whenever ((← lastByte) == some 62) (write " ")
    write ">"
  | .abiTagged base tag => do
    speller.half .left base
    write "[abi:"
    speller.text tag
    write "]"
  | .constructorName base => do
    speller.text (← baseName speller.tree base)
  | .destructorName base => do
    write "~"
    speller.text (← baseName speller.tree base)
  | .destroyed type => do
    write "~"
    speller.half .left type
  | .conversionName type => do
    write "operator "
    speller.spell type
  | .literalOperator name => do
    write "operator\"\" "
    speller.spell name
  | .unnamedType count => do
    write "'unnamed"
    speller.text count
    write "'"
  | .closureType params count => do
    write "'lambda"
    speller.text count
    write "'"
    speller.parenthesizedList params
  | .structuredBinding names => do
    write "["
    speller.list names
    write "]"
  | .abbreviation short => do
    write "std::"
    write short.shortName
  | .expandedAbbreviation short => write short.expanded
  -- encodings
  | .function result name _ _ _ => do
    ifAny result fun result => do
      speller.half .left result
      whenever (!(← hasTail speller.tree .any result)) (write " ")
    speller.spell name
  | .special title child => do
    write title
    speller.spell child
  | .constructionVtable base derived => do
    write "construction vtable for "
    speller.spell base
    write "-in-"
    speller.spell derived
  | .clone encoding suffix => do
    speller.spell encoding
    write " ("
    speller.text suffix
    write ")"
  -- types, in parentheses where a pointer leads to an array or a function
  | .templateParam target => speller.half .left target
  | .forwardParam _ none => throw .unresolvedForwardReference
  | .forwardParam _ (some target) => speller.half .left target
  | .qualified type quals => do
    speller.half .left type
    Print.quals quals
  | .vendorQualified type extension => do
    speller.spell type
    write " "
    speller.text extension
  | .trailingQualified type words => do
    speller.half .left type
    write words
  | .elaborated keyword name => do
    write keyword
    write " "
    speller.spell name
  | .pointer pointee => do
    speller.half .left pointee
    speller.openDeclarator pointee
    write "*"
  | .reference kind pointee => do
    match ← collapse speller.tree kind pointee with
    | none => pure ()
    | some (kind, pointee) =>
      speller.half .left pointee
      speller.openDeclarator pointee
      write (match kind with | .lvalue => "&" | .rvalue => "&&")
  | .memberPointer scope member => do
    speller.half .left member
    write (if (← hasArrayOrFunction speller.tree member) then "(" else " ")
    speller.spell scope
    write "::*"
  | .array element _ => speller.half .left element
  | .functionType result _ _ _ _ => do
    speller.half .left result
    write " "
  | .noexceptSpec condition => do
    write "noexcept"
    speller.parenthesized condition
  | .throwSpec types => do
    write "throw"
    speller.parenthesizedList types
  | .vector element dimension => do
    speller.spell element
    write " vector"
    speller.inBrackets dimension
  | .pixelVector dimension => do
    write "pixel vector"
    speller.inBrackets (some dimension)
  | .binaryFloat width => do
    write "_Float"
    speller.text width
  | .argumentPack elements => speller.list elements
  | .parameterPack elements => do
    ifAny (← currentElement speller.tree elements) (speller.half .left)
  | .expansion pattern => speller.expand pattern
  -- literals and parameters
  | .functionParam number => do
    write "fp"
    speller.text number
  | .integer (.cast type) value => do
    write "("
    write type
    write ")"
    speller.number value
  | .integer (.suffix letters) value => do
    speller.number value
    write letters
  | .boolean value => write (if value then "true" else "false")
  | .float format bits => speller.float format bits
  | .enumerator type value => do
    speller.parenthesized type
    speller.number value
  | .stringLiteral type => do
    write "\"<"
    speller.spell type
    write ">\""
  | .lambdaLiteral type => do
    write "[]"
    speller.closureParams type
    write "\x7b...\x7d"
  -- expressions
  | .binary left symbol right => speller.binary left symbol right
  | .leading symbol operand => do
    write symbol
    speller.parenthesized operand
  | .trailing operand symbol => do
    speller.parenthesized operand
    write symbol
  | .subscript base index => do
    speller.parenthesized base
    speller.inBrackets (some index)
  | .member left symbol right => do
    speller.spell left
    write symbol
    speller.spell right
  | .conditional condition yes no => do
    speller.parenthesized condition
    write " ? "
    speller.parenthesized yes
    write " : "
    speller.parenthesized no
  | .call callee args => do
    speller.spell callee
    speller.parenthesizedList args
  | .new placement type inits isGlobal isArray =>
    speller.newExpression placement type inits isGlobal isArray
  | .delete operand isGlobal isArray => do
    whenever isGlobal (write "::")
    write "delete"
    whenever isArray (write "[]")
    write " "
    speller.spell operand
  | .namedCast keyword type operand => do
    write keyword
    write "<"
    speller.spell type
    write ">"
    speller.parenthesized operand
  | .conversion type operands => do
    speller.parenthesized type
    speller.parenthesizedList operands
  | .enclosing words inner => do
    write words
    speller.parenthesized inner
  | .initList type inits => do
    ifAny type speller.spell
    write "\x7b"
    speller.list inits
    write "\x7d"
  | .fieldInit field init => do
    write "."
    speller.spell field
    speller.initializer init
  | .indexInit index init => do
    speller.inBrackets (some index)
    speller.initializer init
  | .rangeInit first last init => do
    write "["
    speller.spell first
    write " ... "
    speller.spell last
    write "]"
    speller.initializer init
  | .throw operand => do
    write "throw "
    speller.spell operand
  | .fold fromLeft symbol pack init => speller.fold fromLeft symbol pack init
  | .packSize pack => do
    write "sizeof...("
    speller.expand pack
    write ")"
  | .elements nodes => speller.list nodes

end Unmangle.Speller
