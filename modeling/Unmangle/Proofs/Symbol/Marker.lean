import Unmangle.Proofs.Compression.Numeral
import Unmangle.Proofs.Grammar.Cursor
import Unmangle.Symbol

/-!
# Markers of encodings

A symbol of an encoding begins with one to four underscores and `Z`. The test on the text of
a name and the test of the parse, which looks at bytes, find the same markers.
-/
namespace Unmangle

theorem octets_eq_flatMap (words : String) :
    octets words = words.toList.flatMap String.utf8EncodeChar := by
  unfold octets
  rw [String.toUTF8_eq_toByteArray]
  conv => lhs; rw [← String.ofList_toList (s := words)]
  rw [String.toByteArray_ofList]
  simp [List.utf8Encode]

/-- A character of ASCII is one byte, and no byte of any other is of ASCII. -/
theorem utf8EncodeChar_cases (char : Char) :
    (char.toNat < 128 ∧ String.utf8EncodeChar char = [UInt8.ofNat char.toNat]) ∨
      128 ≤ char.toNat ∧ String.utf8EncodeChar char ≠ [] ∧
        ∀ byte ∈ String.utf8EncodeChar char, 128 ≤ byte.toNat := by
  unfold Char.toNat String.utf8EncodeChar
  dsimp only
  by_cases ascii : char.val.toNat ≤ 127
  · apply Or.inl
    rw [if_pos ascii]
    exact ⟨by omega, rfl⟩
  · apply Or.inr
    rw [if_neg ascii]
    refine ⟨by omega, ?_⟩
    split
    · simp
      omega
    · split
      · simp
        omega
      · simp
        omega

/-- A byte of ASCII in a text is one of its characters. -/
theorem mem_octets {words : String} {char : Char} (ascii : char.toNat < 128)
    (h : UInt8.ofNat char.toNat ∈ octets words) : char ∈ words.toList := by
  have small : (UInt8.ofNat char.toNat).toNat = char.toNat := by
    rw [UInt8.toNat_ofNat']
    omega
  rw [octets_eq_flatMap] at h
  obtain ⟨other, found, inside⟩ := List.mem_flatMap.mp h
  rcases utf8EncodeChar_cases other with ⟨low, single⟩ | ⟨-, -, high⟩
  · rw [single, List.mem_singleton] at inside
    have same := congrArg UInt8.toNat inside
    rw [small, UInt8.toNat_ofNat'] at same
    have equal : char = other := Char.toNat_inj.mp (by omega)
    rwa [equal]
  · have large := high _ inside
    omega

/-- A token of ASCII begins the bytes of a text if and only if it begins the text. -/
theorem isSome_strip?_iff {token chars : List Char} (ascii : ∀ char ∈ token, char.toNat < 128)
    (offset : Nat) :
    ((⟨offset, chars.flatMap String.utf8EncodeChar⟩ : Cursor).strip? token).isSome = true ↔
      token <+: chars := by
  induction token generalizing chars offset with
  | nil => simp [Cursor.strip?]
  | cons first token ih =>
    have low := ascii first (.head _)
    cases chars with
    | nil => simp [Cursor.strip?]
    | cons char chars =>
      rw [List.flatMap_cons, List.cons_prefix_cons]
      rcases utf8EncodeChar_cases char with ⟨small, single⟩ | ⟨large, some, high⟩
      · have byte : (UInt8.ofNat char.toNat).toNat = char.toNat := by
          rw [UInt8.toNat_ofNat']
          omega
        rw [single, List.singleton_append, Cursor.strip?, byte]
        by_cases same : char.toNat = first.toNat
        · have equal : char = first := Char.toNat_inj.mp same
          rw [if_pos same, ih (fun c hc => ascii c (.tail _ hc))]
          simp [equal]
        · have other : first ≠ char := fun equal => same (congrArg Char.toNat equal.symm)
          rw [if_neg same]
          simp [other]
      · obtain ⟨byte, bytes, spelled⟩ := List.exists_cons_of_ne_nil some
        have big := high byte (by simp [spelled])
        have different : byte.toNat ≠ first.toNat := by omega
        have other : first ≠ char := by
          rintro rfl
          omega
        rw [spelled, List.cons_append, Cursor.strip?, if_neg different]
        simp [other]

namespace Symbol

def markers : List String :=
  ["_Z", "__Z", "___Z", "____Z"]

theorem isEmpty_of_marker {marker : String} (known : marker ∈ markers) (behind : String) :
    (marker ++ behind).isEmpty = false := by
  rw [Bool.eq_false_iff]
  intro empty
  obtain ⟨rfl, -⟩ := String.append_eq_empty_iff.mp (String.isEmpty_iff.mp empty)
  exact absurd known (by decide)

/-- A name begins with so many underscores and no more before its first `Z`. -/
theorem underscores_iff (count : Nat) (chars : List Char) :
    ((chars.takeWhile (· == '_')).length = count ∧ chars[count]? = some 'Z') ↔
      List.replicate count '_' ++ ['Z'] <+: chars := by
  induction count generalizing chars with
  | zero =>
    cases chars with
    | nil => simp
    | cons char chars =>
      by_cases bar : char = '_'
      · simp [bar]
      · simp [bar]
        exact eq_comm
  | succ count ih =>
    cases chars with
    | nil => simp
    | cons char chars =>
      by_cases bar : char = '_'
      · simp [bar, List.replicate_succ, ← ih]
      · have other : '_' ≠ char := fun same => bar same.symm
        simp [bar, other, List.replicate_succ]

/-- An encoding begins with one of the markers. -/
theorem isEncoding_iff (name : String) :
    isEncoding name = true ↔ ∃ marker ∈ markers, marker.toList <+: name.toList := by
  have counted : (∃ marker ∈ markers, marker.toList <+: name.toList) ↔
      ∃ count, (1 ≤ count ∧ count ≤ 4) ∧ List.replicate count '_' ++ ['Z'] <+: name.toList := by
    constructor
    · rintro ⟨marker, known, begins⟩
      simp only [markers, List.mem_cons, List.not_mem_nil, or_false] at known
      rcases known with rfl | rfl | rfl | rfl
      · exact ⟨1, by decide, begins⟩
      · exact ⟨2, by decide, begins⟩
      · exact ⟨3, by decide, begins⟩
      · exact ⟨4, by decide, begins⟩
    · rintro ⟨count, ⟨least, most⟩, begins⟩
      obtain rfl | rfl | rfl | rfl : count = 1 ∨ count = 2 ∨ count = 3 ∨ count = 4 := by omega
      · exact ⟨"_Z", by decide, begins⟩
      · exact ⟨"__Z", by decide, begins⟩
      · exact ⟨"___Z", by decide, begins⟩
      · exact ⟨"____Z", by decide, begins⟩
  rw [counted]
  simp only [← underscores_iff, isEncoding, Bool.and_eq_true, decide_eq_true_eq, beq_iff_eq]
  constructor
  · rintro ⟨range, letter⟩
    exact ⟨_, range, rfl, letter⟩
  · rintro ⟨_, range, rfl, letter⟩
    exact ⟨range, letter⟩

/-- A name is one of an encoding if and only if the parse finds a marker in its bytes. -/
theorem isEncoding_iff_strip? (name : String) :
    isEncoding name = true ↔
      ∃ marker ∈ markers, ((Cursor.start name.toUTF8).strip? marker.toList).isSome = true := by
  have ascii : ∀ marker ∈ markers, ∀ char ∈ marker.toList, char.toNat < 128 := by
    simp [markers]
  have bytes : Cursor.start name.toUTF8 = ⟨0, name.toList.flatMap String.utf8EncodeChar⟩ := by
    rw [← octets_eq_flatMap]
    rfl
  rw [isEncoding_iff, bytes]
  constructor
  · rintro ⟨marker, known, begins⟩
    exact ⟨marker, known, (isSome_strip?_iff (ascii marker known) 0).mpr begins⟩
  · rintro ⟨marker, known, found⟩
    exact ⟨marker, known, (isSome_strip?_iff (ascii marker known) 0).mp found⟩

end Symbol
end Unmangle
