/-!
# Fields of a binary file

A field is a run of bytes that is read as a number, with the low byte first or
last. A field that does not lie in the file is not read.
-/
namespace Unmangle

/-- Which byte of a field comes first. -/
inductive ByteOrder
  | little
  | big
  deriving Repr, DecidableEq, Inhabited

namespace ByteOrder

/-- The number that some bytes stand for. -/
def number (order : ByteOrder) (bytes : List UInt8) : Nat :=
  match order with
  | little => bytes.foldr (fun byte rest => byte.toNat + 256 * rest) 0
  | big => bytes.foldl (fun rest byte => 256 * rest + byte.toNat) 0

/-- The number at an offset that is known to lie in the file. -/
def field (order : ByteOrder) (file : ByteArray) (offset width : Nat) : Nat :=
  order.number (file.extract offset (offset + width)).data.toList

end ByteOrder

/-- The bytes of a range, if it lies in the file. -/
def range? (file : ByteArray) (offset length : Nat) : Option ByteArray :=
  if offset + length ≤ file.size then some (file.extract offset (offset + length)) else none

end Unmangle
