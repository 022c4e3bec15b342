import Mathlib.Data.List.Basic

/-!
# Between two characters

A symbol is cut by counts of bytes, and a count may end inside a character. Next to an
ASCII byte it does not: such a byte is a character of its own, and the grammar reads no
others than those and the ones it counts.
-/
namespace Unmangle

/-- The offset lies between two characters, if the symbol is text at all. -/
def Boundary (symbol : ByteArray) (offset : Nat) : Prop :=
  ∀ text : String, symbol = text.toUTF8 → String.Pos.Raw.IsValid text ⟨offset⟩

def Ascii (byte : UInt8) : Prop :=
  byte.toNat < 128

namespace Boundary

variable {symbol : ByteArray} {offset : Nat} {byte : UInt8}

theorem size (symbol : ByteArray) : Boundary symbol symbol.size := by
  rintro text rfl
  exact String.Pos.Raw.isValid_rawEndPos

theorem isUTF8FirstByte_of_ascii (ascii : Ascii byte) : byte.IsUTF8FirstByte := by
  left
  have below : ∀ n < 128, UInt8.ofNat n &&& 128 = 0 := by decide
  have h := below byte.toNat ascii
  rwa [UInt8.ofNat_toNat] at h

theorem getElem_of_getElem? (h : symbol.data.toList[offset]? = some byte) :
    ∃ below : offset < symbol.size, symbol[offset] = byte := by
  obtain ⟨below, h⟩ := List.getElem?_eq_some_iff.mp h
  rw [Array.length_toList] at below
  exact ⟨below, by simpa [ByteArray.getElem_eq_getElem_data] using h⟩

/-- In front of an ASCII byte. -/
theorem of_ascii (h : symbol.data.toList[offset]? = some byte) (ascii : Ascii byte) :
    Boundary symbol offset := by
  rintro text rfl
  obtain ⟨below, h⟩ := getElem_of_getElem? h
  rw [String.Pos.Raw.isValid_iff_isUTF8FirstByte]
  right
  refine ⟨below, ?_⟩
  change (text.toUTF8[offset]).IsUTF8FirstByte
  rw [h]
  exact isUTF8FirstByte_of_ascii ascii

/-- One more ASCII byte keeps bytes that are text. -/
theorem isValidUTF8_push {bytes : ByteArray} (valid : bytes.IsValidUTF8) (ascii : Ascii byte) :
    (bytes.push byte).IsValidUTF8 := by
  have small : byte.toUInt32.toNat < 0xd800 := by
    rw [UInt8.toNat_toUInt32]
    exact Nat.lt_trans ascii (by decide)
  let char : Char := ⟨byte.toUInt32, .inl small⟩
  have one : char.utf8Size = 1 := by
    rw [Char.utf8Size_eq_one_iff, UInt32.le_iff_toNat_le]
    exact Nat.le_of_lt_succ ascii
  have same : char.toUInt8 = byte := UInt8.toUInt8_toUInt32 byte
  rw [← same]
  exact valid.push one

/-- Behind an ASCII byte. -/
theorem succ_of_ascii (h : symbol.data.toList[offset]? = some byte) (ascii : Ascii byte) :
    Boundary symbol (offset + 1) := by
  intro text same
  have before := (of_ascii h ascii text same).isValidUTF8_extract_zero
  obtain ⟨below, h⟩ := getElem_of_getElem? h
  subst same
  rw [String.Pos.Raw.isValid_iff_isValidUTF8_extract_zero]
  refine ⟨below, ?_⟩
  have grown : text.toUTF8.extract 0 (offset + 1) = (text.toUTF8.extract 0 offset).push byte := by
    apply ByteArray.ext
    rw [ByteArray.data_push, ByteArray.data_extract, ByteArray.data_extract, ← h,
      ByteArray.getElem_eq_getElem_data]
    exact Array.extract_succ_right (Nat.succ_pos offset) below
  change (text.toUTF8.extract 0 (offset + 1)).IsValidUTF8
  rw [grown]
  exact isValidUTF8_push before ascii

/-- What stands between two boundaries is text. -/
theorem isValidUTF8_extract {start stop : Nat} (valid : symbol.IsValidUTF8) (le : start ≤ stop)
    (first : Boundary symbol start) (last : Boundary symbol stop) :
    (symbol.extract start stop).IsValidUTF8 := by
  have same : symbol = (String.fromUTF8 symbol valid).toUTF8 := rfl
  have hfirst := first _ same
  have hlast := last _ same
  exact (String.Pos.Raw.isValidUTF8_extract_iff ⟨start⟩ ⟨stop⟩ le hlast.le_rawEndPos).mpr
    (.inr ⟨hfirst, hlast⟩)

end Boundary
end Unmangle
