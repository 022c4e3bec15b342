import Unmangle.Yaml.Character

/-!
# Numbers and truth values of YAML

Whole numbers may have a plus sign and a base, and truth values have three
spellings each.
-/
namespace Unmangle.Yaml

/-- The number behind a sign. Decimals have no zeros in front. -/
def magnitude? : List Char → Option Nat
  | '0' :: 'x' :: rest => digits? 16 rest
  | '0' :: 'o' :: rest => digits? 8 rest
  | '0' :: 'b' :: rest => digits? 2 rest
  | '0' :: _ :: _ => none
  | number => digits? 10 number

/-- A text as a whole number below a bound. No number has a minus sign, not even
zero. -/
def natural? (bound : Nat) (text : List Char) : Option Nat := do
  let number ← match text with
    | '+' :: rest => magnitude? rest
    | _ => magnitude? text
  if number < bound then some number else none

/-- A text as a truth value. -/
def truth? (text : List Char) : Option Bool :=
  if text = "true".toList ∨ text = "True".toList ∨ text = "TRUE".toList then some true
  else if text = "false".toList ∨ text = "False".toList ∨ text = "FALSE".toList then some false
  else none

end Unmangle.Yaml
