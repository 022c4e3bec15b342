/-!
# Operators

A two-letter code names an operator. Its form decides what an expression with the
code is made of, and an operator that programs may declare also has a name.
-/
namespace Unmangle

/-- What the operands of an operator are and where they stand. -/
inductive OperatorForm
  /-- One operand, behind the operator. -/
  | leading
  /-- One operand, before the operator. -/
  | trailing
  | binary
  | subscript
  | member
  | new (array : Bool)
  | delete (array : Bool)
  | call
  | cast
  | conditional
  /-- A cast that is spelled by its name, such as a static one. -/
  | namedCast
  /-- A question about a type. -/
  | ofType
  /-- A question about an expression. -/
  | ofExpression
  deriving Repr, DecidableEq, Inhabited

/-- One operator: its code, what it takes, and how it is spelled. -/
structure Operator where
  code : Char × Char
  form : OperatorForm
  /-- The spelling inside expressions. -/
  symbol : String
  /-- The spelling as the name of a function. -/
  name : Option String
  deriving Repr, DecidableEq, Inhabited

namespace Operator

/-- An operator that programs may declare, under its usual name. -/
def declared (code : Char × Char) (form : OperatorForm) (symbol : String) : Operator :=
  ⟨code, form, symbol, some ("operator" ++ symbol)⟩

/-- An operator whose name is a word, set apart from the keyword. -/
def word (code : Char × Char) (form : OperatorForm) (symbol : String) : Operator :=
  ⟨code, form, symbol, some ("operator " ++ symbol)⟩

def builtIn (code : Char × Char) (form : OperatorForm) (symbol : String) : Operator :=
  ⟨code, form, symbol, none⟩

/-- Every operator, in the order of the codes. -/
def all : List Operator := [
  declared ('a', 'N') .binary "&=",
  declared ('a', 'S') .binary "=",
  declared ('a', 'a') .binary "&&",
  declared ('a', 'd') .leading "&",
  declared ('a', 'n') .binary "&",
  builtIn ('a', 't') .ofType "alignof ",
  word ('a', 'w') .leading "co_await",
  builtIn ('a', 'z') .ofExpression "alignof ",
  builtIn ('c', 'c') .namedCast "const_cast",
  declared ('c', 'l') .call "()",
  declared ('c', 'm') .binary ",",
  declared ('c', 'o') .leading "~",
  builtIn ('c', 'v') .cast "(cast)",
  declared ('d', 'V') .binary "/=",
  word ('d', 'a') (.delete true) "delete[]",
  builtIn ('d', 'c') .namedCast "dynamic_cast",
  declared ('d', 'e') .leading "*",
  word ('d', 'l') (.delete false) "delete",
  builtIn ('d', 's') .member ".*",
  builtIn ('d', 't') .member ".",
  declared ('d', 'v') .binary "/",
  declared ('e', 'O') .binary "^=",
  declared ('e', 'o') .binary "^",
  declared ('e', 'q') .binary "==",
  declared ('g', 'e') .binary ">=",
  declared ('g', 't') .binary ">",
  declared ('i', 'x') .subscript "[]",
  declared ('l', 'S') .binary "<<=",
  declared ('l', 'e') .binary "<=",
  declared ('l', 's') .binary "<<",
  declared ('l', 't') .binary "<",
  declared ('m', 'I') .binary "-=",
  declared ('m', 'L') .binary "*=",
  declared ('m', 'i') .binary "-",
  declared ('m', 'l') .binary "*",
  declared ('m', 'm') .trailing "--",
  word ('n', 'a') (.new true) "new[]",
  declared ('n', 'e') .binary "!=",
  declared ('n', 'g') .leading "-",
  declared ('n', 't') .leading "!",
  word ('n', 'w') (.new false) "new",
  declared ('o', 'R') .binary "|=",
  declared ('o', 'o') .binary "||",
  declared ('o', 'r') .binary "|",
  declared ('p', 'L') .binary "+=",
  declared ('p', 'l') .binary "+",
  declared ('p', 'm') .member "->*",
  declared ('p', 'p') .trailing "++",
  declared ('p', 's') .leading "+",
  declared ('p', 't') .member "->",
  declared ('q', 'u') .conditional "?",
  declared ('r', 'M') .binary "%=",
  declared ('r', 'S') .binary ">>=",
  builtIn ('r', 'c') .namedCast "reinterpret_cast",
  declared ('r', 'm') .binary "%",
  declared ('r', 's') .binary ">>",
  builtIn ('s', 'c') .namedCast "static_cast",
  declared ('s', 's') .binary "<=>",
  builtIn ('s', 't') .ofType "sizeof ",
  builtIn ('s', 'z') .ofExpression "sizeof ",
  builtIn ('t', 'e') .ofExpression "typeid ",
  builtIn ('t', 'i') .ofType "typeid "]

def find? (first second : Char) : Option Operator :=
  all.find? fun operator => operator.code.1 == first && operator.code.2 == second

/-- Whether a pack can be folded over the operator: any binary one, and access
through a pointer to a member. -/
def foldable (operator : Operator) : Bool :=
  match operator.form with
  | .binary => true
  | .member => operator.symbol == ".*" || operator.symbol == "->*"
  | _ => false

end Operator
end Unmangle
