/-!
# Bytes as text

Bytes are text when they are UTF-8. Where they are not, each longest run that
could have begun a character, and each byte that could not, becomes one
replacement character.
-/
namespace Unmangle.Utf8

/-- A character whose first bytes were read: its bits so far, the number of bytes
that must follow, and the range of the next one. -/
structure Pending where
  bits : Nat
  missing : Nat
  low : UInt8
  high : UInt8
  deriving Repr, DecidableEq

def replacement : Char := '\uFFFD'

/-- A byte where a character may begin: what it completes, and what it opens. -/
def firstByte (byte : UInt8) : List Char × Option Pending :=
  let bits := byte.toNat
  if byte < 0x80 then ([Char.ofNat bits], none)
  else if byte < 0xC2 then ([replacement], none)
  else if byte < 0xE0 then ([], some ⟨bits % 32, 1, 0x80, 0xBF⟩)
  else if byte == 0xE0 then ([], some ⟨bits % 16, 2, 0xA0, 0xBF⟩)
  else if byte == 0xED then ([], some ⟨bits % 16, 2, 0x80, 0x9F⟩)
  else if byte < 0xF0 then ([], some ⟨bits % 16, 2, 0x80, 0xBF⟩)
  else if byte == 0xF0 then ([], some ⟨bits % 8, 3, 0x90, 0xBF⟩)
  else if byte < 0xF4 then ([], some ⟨bits % 8, 3, 0x80, 0xBF⟩)
  else if byte == 0xF4 then ([], some ⟨bits % 8, 3, 0x80, 0x8F⟩)
  else ([replacement], none)

/-- A byte in the light of the character it may go on with. -/
def step (byte : UInt8) : Option Pending → List Char × Option Pending
  | none => firstByte byte
  | some pending =>
    if pending.low ≤ byte ∧ byte ≤ pending.high then
      let bits := pending.bits * 64 + byte.toNat % 64
      if pending.missing ≤ 1 then ([Char.ofNat bits], none)
      else ([], some ⟨bits, pending.missing - 1, 0x80, 0xBF⟩)
    else
      let (chars, next) := firstByte byte
      (replacement :: chars, next)

/-- Read any bytes as characters. -/
def decodeLossyFrom : Option Pending → List UInt8 → List Char
  | none, [] => []
  | some _, [] => [replacement]
  | pending, byte :: rest =>
    let (chars, next) := step byte pending
    chars ++ decodeLossyFrom next rest

def decodeLossy (bytes : List UInt8) : List Char :=
  decodeLossyFrom none bytes

/-- The text of the bytes. Bytes that are UTF-8 are read as they are. -/
def text (bytes : ByteArray) : String :=
  match String.fromUTF8? bytes with
  | some text => text
  | none => String.ofList (decodeLossy bytes.data.toList)

end Unmangle.Utf8
