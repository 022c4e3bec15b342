import Unmangle.Grammar.Name

/-!
# Literals

A literal is a type and a value between `L` and `E`. The type decides how the
value is written.
-/
namespace Unmangle.Parse

/-- A number, and the end of the literal. -/
def literalNumber : Parse Text := do
  let value ← number true
  ensure (!value.isEmpty) unexpected
  expect "E"
  return value

def isHexDigit (byte : UInt8) : Bool :=
  Number.isDigit byte || (97 ≤ byte && byte ≤ 102)

/-- A bit pattern in hex digits, as many as the format has, and the end. -/
def floatLiteral (format : FloatFormat) : Parse NodeId := do
  let cursor := (← get).cursor
  let behind ← orFault (cursor.take? format.digits) .unexpectedEnd
  ensure ((cursor.rest.take format.digits).all isHexDigit) (throw .unexpectedText)
  modify fun state => { state with cursor := behind }
  expect "E"
  make (.float format (.span cursor.offset behind.offset))

/-- A value of a type that has no literals of its own. -/
def enumerator (call : Calls) : Parse NodeId := do
  let type ← call .type
  make (.enumerator type (← literalNumber))

/-- `L <type> <value> E`, or an encoding between `L_Z` and `E`. -/
def literal (call : Calls) : Parse NodeId := do
  expect "L"
  let (first, second) ← peekPair
  match Builtin.literalType? first with
  | some type =>
    advance 1
    make (.integer type (← literalNumber))
  | none =>
    match first with
    | 'b' =>
      if ← accept "b0E" then make (.boolean false)
      else if ← accept "b1E" then make (.boolean true)
      else unexpected
    | '_' =>
      expect "_Z"
      let encoding ← call .encoding
      expect "E"
      return encoding
    | 'A' =>
      let type ← call .type
      expect "E"
      make (.stringLiteral type)
    | 'D' =>
      if ← accept "DnE" then makeName "nullptr"
      else if ← accept "Dn0E" then makeName "nullptr"
      else enumerator call
    | 'T' => throw .unexpectedText
    | _ =>
      match FloatFormat.ofCode? first with
      | some format =>
        advance 1
        floatLiteral format
      | none =>
        if first == 'U' && second == 'l' then
          let type ← unnamedTypeName call
          expect "E"
          make (.lambdaLiteral type)
        else
          enumerator call

end Unmangle.Parse
