/-!
# Numbers in a symbol

Numbers are written in base ten, and in base thirty-six where they count
substitutions. A number is good when it fits 64 bits, however many digits it has.
-/
namespace Unmangle.Number

/-- One more than the largest number of 64 bits. -/
def bound : Nat := 0x10000000000000000

def isDigit (byte : UInt8) : Bool :=
  48 ≤ byte && byte ≤ 57

def isUpper (byte : UInt8) : Bool :=
  65 ≤ byte && byte ≤ 90

def isSeqDigit (byte : UInt8) : Bool :=
  isDigit byte || isUpper byte

/-- The value of a decimal digit, or of a letter counted on from ten. -/
def digitValue (byte : UInt8) : Nat :=
  if isDigit byte then byte.toNat - 48 else byte.toNat - 55

/-- The number that digits write, if it fits. -/
def value? (base : Nat) (digits : List UInt8) : Option Nat :=
  digits.foldlM (fun value digit =>
    let next := value * base + digitValue digit
    if next < bound then some next else none) 0

/-- The number one higher, if it fits. -/
def succ? (number : Nat) : Option Nat :=
  if number + 1 < bound then some (number + 1) else none

end Unmangle.Number
