import Unmangle.Image.Field
import Unmangle.Proofs.Grammar.Cursor

/-!
# Fields at known places

A field that was written is read back as the number it was written for. Where a run of
bytes stands in a file is kept as one fact, from which the places of its parts follow.
-/
namespace Unmangle

namespace ByteOrder

/-- The bytes of a number, the low byte first. -/
def littleBytes : Nat → Nat → List UInt8
  | 0, _ => []
  | width + 1, value => UInt8.ofNat value :: littleBytes width (value / 256)

/-- The bytes of a number in a field of some width. -/
def bytes (order : ByteOrder) (width value : Nat) : List UInt8 :=
  match order with
  | little => littleBytes width value
  | big => (littleBytes width value).reverse

def bound : Nat → Nat
  | 0 => 1
  | width + 1 => 256 * bound width

@[simp]
theorem length_littleBytes (width value : Nat) : (littleBytes width value).length = width := by
  induction width generalizing value with
  | zero => rfl
  | succ width ih => simp [littleBytes, ih]

@[simp]
theorem length_bytes (order : ByteOrder) (width value : Nat) :
    (order.bytes width value).length = width := by
  cases order <;> simp [bytes]

/-- A number that fits is read back from its bytes, the lowest one first. -/
theorem number_littleBytes {width value : Nat} (h : value < bound width) :
    little.number (littleBytes width value) = value := by
  induction width generalizing value with
  | zero =>
    have none : value < 1 := h
    have zero : value = 0 := by omega
    simp [zero, littleBytes, number]
  | succ width ih =>
    have fits : value < 256 * bound width := h
    have rest := ih (show value / 256 < bound width by omega)
    have first : (UInt8.ofNat value).toNat = value % 256 := UInt8.toNat_ofNat'
    change (UInt8.ofNat value).toNat + 256 * little.number (littleBytes width (value / 256)) = value
    rw [rest, first]
    omega

theorem number_big_reverse (list : List UInt8) : big.number list.reverse = little.number list := by
  simp only [number, List.foldl_reverse]
  induction list with
  | nil => rfl
  | cons byte rest ih =>
    simp only [List.foldr_cons, ih]
    omega

/-- A number that fits is read back from its bytes in either order. -/
theorem number_bytes {order : ByteOrder} {width value : Nat} (h : value < bound width) :
    order.number (order.bytes width value) = value := by
  cases order with
  | little => exact number_littleBytes h
  | big =>
    simp only [bytes, number_big_reverse]
    exact number_littleBytes h

end ByteOrder

/-- Some bytes stand at an offset of a file. -/
def Holds (file : ByteArray) (offset : Nat) (bytes : List UInt8) : Prop :=
  ∃ before after, file.data.toList = before ++ (bytes ++ after) ∧ before.length = offset

namespace Holds

variable {file : ByteArray} {offset : Nat} {bytes bytes' : List UInt8}

theorem whole (bytes : List UInt8) : Holds ⟨bytes.toArray⟩ 0 bytes :=
  ⟨[], [], by simp, rfl⟩

theorem left (h : Holds file offset (bytes ++ bytes')) : Holds file offset bytes := by
  obtain ⟨before, after, split, length⟩ := h
  exact ⟨before, bytes' ++ after, by simp [split], length⟩

theorem right (h : Holds file offset (bytes ++ bytes')) :
    Holds file (offset + bytes.length) bytes' := by
  obtain ⟨before, after, split, length⟩ := h
  exact ⟨before ++ bytes, after, by simp [split], by simp [length]⟩

theorem extract (h : Holds file offset bytes) :
    file.extract offset (offset + bytes.length) = ⟨bytes.toArray⟩ := by
  obtain ⟨before, after, split, rfl⟩ := h
  apply ByteArray.ext
  apply Array.toList_inj.mp
  rw [toList_extract, split]
  simp

theorem le_size (h : Holds file offset bytes) : offset + bytes.length ≤ file.size := by
  obtain ⟨before, after, split, rfl⟩ := h
  have size : file.size = file.data.toList.length := rfl
  rw [size, split]
  simp

theorem range? (h : Holds file offset bytes) :
    range? file offset bytes.length = some ⟨bytes.toArray⟩ := by
  have fits := h.le_size
  simp [Unmangle.range?, fits, h.extract]

/-- A field holds the number that was written there. -/
theorem field {order : ByteOrder} {width value : Nat}
    (h : Holds file offset (order.bytes width value)) (fits : value < ByteOrder.bound width) :
    order.field file offset width = value := by
  have here := h.extract
  rw [ByteOrder.length_bytes] at here
  simp only [ByteOrder.field, here]
  exact ByteOrder.number_bytes fits

end Holds
end Unmangle
