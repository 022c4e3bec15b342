import Unmangle.Proofs.Output.Bracket

/-!
# Texts that are no symbols

A text that begins with the marker of an encoding is taken for a symbol. One that has more
than underscores in it and no marker at its beginning is clear of that, whatever follows it.
-/
namespace Unmangle

/-- The text has more in it than underscores and does not begin with a marker, or it is
empty. -/
def Clear (text : List Char) : Prop :=
  text = [] ∨ (∃ char ∈ text, char ≠ '_') ∧ ∀ marker ∈ Symbol.markers, ¬marker.toList <+: text

instance (text : List Char) : Decidable (Clear text) :=
  have : Decidable (∃ char ∈ text, char ≠ '_') := List.decidableBEx _ text
  inferInstanceAs (Decidable (_ ∨ _ ∧ _))

/-- A token of ASCII begins a text if and only if it begins its bytes. -/
theorem begins_letters_iff {token : List Char} (ascii : ∀ char ∈ token, char.toNat < 128)
    (words : String) : token <+: letters words.toUTF8 ↔ token <+: words.toList := by
  rw [letters_toUTF8]
  generalize words.toList = chars
  induction token generalizing chars with
  | nil => simp only [List.nil_prefix]
  | cons first token ih =>
    have low := ascii first (.head _)
    cases chars with
    | nil => rfl
    | cons char chars =>
      rw [List.flatMap_cons, List.map_append, List.cons_prefix_cons]
      rcases utf8EncodeChar_cases char with ⟨small, single⟩ | ⟨large, some, high⟩
      · rw [single, List.map_singleton, ofNat_byte_of_ascii small, List.singleton_append,
          List.cons_prefix_cons, ih fun char mem => ascii char (.tail _ mem)]
      · obtain ⟨byte, bytes, spelled⟩ := List.exists_cons_of_ne_nil some
        have big : 128 ≤ (Char.ofNat byte.toNat).toNat := by
          rw [toNat_ofNat_byte]
          exact high byte (spelled ▸ .head _)
        have other : first ≠ Char.ofNat byte.toNat := by
          rintro rfl
          omega
        have other' : first ≠ char := by
          rintro rfl
          omega
        rw [spelled, List.map_cons, List.cons_append, List.cons_prefix_cons]
        exact ⟨fun begins => absurd begins.1 other, fun begins => absurd begins.1 other'⟩

theorem Symbol.ascii_of_marker {marker : String} (known : marker ∈ Symbol.markers) :
    ∀ char ∈ marker.toList, char.toNat < 128 := by
  revert marker
  decide

namespace Clear

variable {text text' : List Char}

theorem nil : Clear [] := .inl rfl

/-- A beginning of a marker that is not of underscores alone is all of it. -/
theorem eq_marker_of_prefix {marker : String} (known : marker ∈ Symbol.markers)
    (begins : text <+: marker.toList) (some : ∃ char ∈ text, char ≠ '_') : text = marker.toList := by
  obtain ⟨count, bars⟩ : ∃ count, marker.toList = List.replicate count '_' ++ ['Z'] := by
    simp only [Symbol.markers, List.mem_cons, List.not_mem_nil, or_false] at known
    rcases known with rfl | rfl | rfl | rfl
    · exact ⟨1, by decide⟩
    · exact ⟨2, by decide⟩
    · exact ⟨3, by decide⟩
    · exact ⟨4, by decide⟩
  rw [bars] at begins ⊢
  obtain all | short := List.prefix_concat_iff.mp begins
  · exact all
  · obtain ⟨char, mem, other⟩ := some
    exact absurd (List.eq_of_mem_replicate (short.subset mem)) other

/-- What stands behind a text that is clear does not matter. -/
theorem append_right (clear : Clear text) (some : text ≠ []) (behind : List Char) :
    Clear (text ++ behind) := by
  obtain none | ⟨⟨char, mem, other⟩, unmarked⟩ := clear
  · exact absurd none some
  · refine .inr ⟨⟨char, List.mem_append_left _ mem, other⟩, fun marker known begins => ?_⟩
    obtain inside | across := List.prefix_or_prefix_of_prefix begins (List.prefix_append text behind)
    · exact unmarked marker known inside
    · have all := eq_marker_of_prefix known across ⟨char, mem, other⟩
      exact unmarked marker known (all ▸ List.prefix_refl _)

theorem append (clear : Clear text) (clear' : Clear text') : Clear (text ++ text') := by
  by_cases none : text = []
  · rwa [none]
  · exact clear.append_right none text'

/-- A text is clear if its first character is no underscore. -/
theorem of_head {char : Char} (other : char ≠ '_') (text : List Char) : Clear (char :: text) := by
  refine .inr ⟨⟨char, .head _, other⟩, fun marker known begins => ?_⟩
  have bar : ∀ marker ∈ Symbol.markers, ∃ rest, marker.toList = '_' :: rest := by
    simp [Symbol.markers]
  obtain ⟨rest, first⟩ := bar marker known
  rw [first, List.cons_prefix_cons] at begins
  exact other begins.1.symm

/-- The bytes of a clear text are clear. -/
theorem of_chars {words : String} (clear : Clear words.toList) : Clear (letters words.toUTF8) := by
  obtain none | ⟨⟨char, mem, other⟩, unmarked⟩ := clear
  · obtain rfl : words = "" := String.toList_eq_nil_iff.mp none
    exact nil
  · refine .inr ⟨?_, fun marker known begins =>
      unmarked marker known ((begins_letters_iff (Symbol.ascii_of_marker known) words).mp begins)⟩
    rw [letters_toUTF8]
    rcases utf8EncodeChar_cases char with ⟨low, single⟩ | ⟨-, some, high⟩
    · have inside : UInt8.ofNat char.toNat ∈ String.utf8EncodeChar char := single ▸ .head _
      exact ⟨char, List.mem_map.mpr ⟨_, List.mem_flatMap.mpr ⟨char, mem, inside⟩,
        ofNat_byte_of_ascii low⟩, other⟩
    · obtain ⟨byte, bytes, spelled⟩ := List.exists_cons_of_ne_nil some
      have inside : byte ∈ String.utf8EncodeChar char := spelled ▸ .head _
      refine ⟨_, List.mem_map.mpr ⟨byte, List.mem_flatMap.mpr ⟨char, mem, inside⟩, rfl⟩, fun bar => ?_⟩
      have code := congrArg Char.toNat bar
      rw [toNat_ofNat_byte] at code
      have large := high byte inside
      rw [code] at large
      exact absurd large (by decide)

/-- A clear text with something in it is not taken for a symbol. -/
theorem isEncoding_eq_false {words : String} (clear : Clear (letters words.toUTF8))
    (some : words ≠ "") : Symbol.isEncoding words = false := by
  rw [Bool.eq_false_iff]
  intro marked
  obtain ⟨marker, known, begins⟩ := (Symbol.isEncoding_iff words).mp marked
  obtain none | ⟨-, unmarked⟩ := clear
  · exact some (String.toByteArray_inj.mp (letters_eq_nil_iff.mp none))
  · exact unmarked marker known ((begins_letters_iff (Symbol.ascii_of_marker known) words).mpr begins)

end Clear
end Unmangle
