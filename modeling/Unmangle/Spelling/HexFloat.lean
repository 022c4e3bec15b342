import Unmangle.Tree.Node

/-!
# Floating-point literals in hexadecimal

A literal is a bit pattern. It is written as its significand in hex digits, without
trailing zeros, and the power of two by which that is scaled. All of it is exact.
-/
namespace Unmangle.HexFloat

def hexDigit (value : Nat) : Char :=
  Char.ofNat (if value < 10 then 48 + value else 87 + value)

/-- The value of a lower-case hex digit. -/
def digitValue? (byte : UInt8) : Option Nat :=
  if 48 ≤ byte ∧ byte ≤ 57 then some (byte.toNat - 48)
  else if 97 ≤ byte ∧ byte ≤ 102 then some (byte.toNat - 87)
  else none

/-- The bit pattern that hex digits write, if it has no more bits than that. Capital digits and
signs are not read: a literal is stored only if every byte of it is a decimal digit or one of the
letters from `a` to `f` (`Parse.floatLiteral`). -/
def pattern? (bits : Nat) (digits : List UInt8) : Option Nat := do
  let value ← digits.foldlM (fun value digit => return value * 16 + (← digitValue? digit)) 0
  if digits.isEmpty ∨ 1 <<< bits ≤ value then none else some value

/-- Some bits of a pattern, from the lowest of them. -/
def field (pattern low width : Nat) : Nat :=
  (pattern >>> low) % (1 <<< width)

/-- The lowest hex digits of a number, highest first. -/
def hexDigits (number : Nat) : Nat → List Char
  | 0 => []
  | count + 1 => hexDigits (number / 16) count ++ [hexDigit (number % 16)]

/-- The digits of a fraction, without the zeros at the end. -/
def fraction (number count : Nat) : List Char :=
  ((hexDigits number count).reverse.dropWhile (· == '0')).reverse

/-- The digits of a fraction behind their point. A fraction of zero has neither. -/
def pointed (number count : Nat) : List Char :=
  match fraction number count with
  | [] => []
  | digits => '.' :: digits

/-- A power of two with its sign, in base ten. -/
def exponent (power : Int) : List Char :=
  (if power < 0 then '-' else '+') :: (Nat.repr power.natAbs).toList

def sign (isNegative : Bool) : List Char :=
  if isNegative then ['-'] else []

/-- The spelling of a pattern of sixty-four bits. -/
def double (bits : Nat) : List Char :=
  let power := field bits 52 11
  let rest := field bits 0 52
  let magnitude :=
    if power = 0x7ff then if rest = 0 then "inf".toList else "nan".toList
    else if power = 0 then
      if rest = 0 then "0x0p+0".toList
      else "0x0.".toList ++ fraction rest 13 ++ "p-1022".toList
    else "0x1".toList ++ pointed rest 13 ++ 'p' :: exponent ((power : Int) - 1023)
  sign (field bits 63 1 == 1) ++ magnitude

/-- The pattern of sixty-four bits for the value of one of thirty-two. What is
subnormal in the short format is normal in the long one. -/
def widen (bits : Nat) : Nat :=
  let power := field bits 23 8
  let rest := field bits 0 23
  let magnitude :=
    if power = 0xff then (0x7ff <<< 52) + (rest <<< 29)
    else if power = 0 then
      if rest = 0 then 0
      else
        let lead := Nat.log2 rest
        ((lead + 874) <<< 52) + (field rest 0 lead <<< (52 - lead))
    else ((power + 896) <<< 52) + (rest <<< 29)
  (field bits 31 1 <<< 63) + magnitude

/-- The spelling of a pattern of eighty bits. The leading digit is the top of the
significand, whose first bit is written out in this format. -/
def extended (bits : Nat) : List Char :=
  let power := field bits 64 15
  let significand := field bits 0 64
  let magnitude :=
    if power = 0x7fff then
      if field significand 0 63 = 0 then "inf".toList else "nan".toList
    else if significand = 0 then "0x0p+0".toList
    else
      "0x".toList ++ hexDigit (field significand 60 4) :: pointed (field significand 0 60) 15 ++
        'p' :: exponent ((power : Int) - 16386)
  sign (field bits 79 1 == 1) ++ magnitude

/-- The spelling of a literal, from its hex digits. -/
def spelling? (format : FloatFormat) (digits : List UInt8) : Option String := do
  let bits ← pattern? (4 * format.digits) digits
  return String.ofList <|
    match format with
    | .single => double (widen bits) ++ ['f']
    | .double => double bits
    | .extended => extended bits ++ ['L']

end Unmangle.HexFloat
