import Unmangle.Proofs.Symbol.Marker

/-!
# Brackets in a text

Round and square brackets are nested if every one that closes is of the kind that was opened
last. A text is scanned from the brackets that are open before it to those behind it.
-/
namespace Unmangle

/-- The kinds of brackets that nest. -/
inductive Bracket
  | round
  | square
  deriving Repr, DecidableEq, Inhabited

def letters (bytes : ByteArray) : List Char :=
  bytes.data.toList.map fun byte => Char.ofNat byte.toNat

namespace Bracket

/-- What is open behind a character, innermost first. There is nothing if it closes what is
not open. -/
def behind (opened : List Bracket) : Char → Option (List Bracket)
  | '(' => some (round :: opened)
  | '[' => some (square :: opened)
  | ')' => match opened with
    | round :: opened => some opened
    | _ => none
  | ']' => match opened with
    | square :: opened => some opened
    | _ => none
  | _ => some opened

def scan (opened : List Bracket) (text : List Char) : Option (List Bracket) :=
  text.foldlM behind opened

/-- All that a text opens it closes, and nothing else. -/
def Balanced (text : List Char) : Prop :=
  scan [] text = some []

instance (text : List Char) : Decidable (Balanced text) :=
  inferInstanceAs (Decidable (_ = _))

def marks : List Char := ['(', ')', '[', ']']

variable {opened opened' under : List Bracket} {text text' : List Char}

@[simp]
theorem scan_nil (opened : List Bracket) : scan opened [] = some opened := rfl

theorem scan_cons (opened : List Bracket) (char : Char) (text : List Char) :
    scan opened (char :: text) = (behind opened char).bind fun opened => scan opened text := by
  simp only [scan, List.foldlM_cons]
  rfl

theorem scan_append (opened : List Bracket) (text text' : List Char) :
    scan opened (text ++ text') = (scan opened text).bind fun opened => scan opened text' := by
  simp only [scan, List.foldlM_append]
  rfl

theorem behind_of_not_mem {char : Char} (other : char ∉ marks) :
    behind opened char = some opened := by
  simp only [marks, List.mem_cons, List.not_mem_nil, or_false, not_or] at other
  unfold behind
  split <;> simp_all

/-- A text without brackets changes nothing. -/
theorem scan_of_forall (none : ∀ char ∈ text, char ∉ marks) : scan opened text = some opened := by
  induction text with
  | nil => rfl
  | cons char text ih =>
    rw [scan_cons, behind_of_not_mem (none char (.head _))]
    exact ih fun other mem => none other (.tail _ mem)

/-- What is open further out does not change what a character does. -/
theorem behind_under {char : Char} (h : behind opened char = some opened') :
    behind (opened ++ under) char = some (opened' ++ under) := by
  unfold behind at h ⊢
  split at h
  · cases h
    rfl
  · cases h
    rfl
  · split at h
    · cases h
      rfl
    · cases h
  · split at h
    · cases h
      rfl
    · cases h
  · cases h
    rfl

/-- What is open around a text does not matter to it. -/
theorem scan_under (h : scan opened text = some opened') :
    scan (opened ++ under) text = some (opened' ++ under) := by
  induction text generalizing opened with
  | nil =>
    cases h
    rfl
  | cons char text ih =>
    rw [scan_cons] at h ⊢
    obtain ⟨between, first, rest⟩ := Option.bind_eq_some_iff.mp h
    rw [behind_under first]
    exact ih rest

theorem Balanced.scan (balanced : Balanced text) (opened : List Bracket) :
    Bracket.scan opened text = some opened :=
  @scan_under _ _ opened _ balanced

end Bracket

theorem letters_append (bytes bytes' : ByteArray) :
    letters (bytes ++ bytes') = letters bytes ++ letters bytes' := by
  simp [letters, ByteArray.data_append]

theorem letters_eq_nil_iff {bytes : ByteArray} : letters bytes = [] ↔ bytes = .empty := by
  rw [letters, List.map_eq_nil_iff, Array.toList_eq_nil_iff]
  exact ⟨fun none => ByteArray.ext none, fun none => none ▸ rfl⟩

theorem toNat_ofNat_byte (byte : UInt8) : (Char.ofNat byte.toNat).toNat = byte.toNat := by
  rw [Char.ofNat, dif_pos (.inl (Nat.lt_trans byte.toNat_lt (by decide)))]
  rfl

/-- A character of ASCII is one byte, of its own code. -/
theorem ofNat_byte_of_ascii {char : Char} (low : char.toNat < 128) :
    Char.ofNat (UInt8.ofNat char.toNat).toNat = char := by
  apply Char.toNat_inj.mp
  rw [toNat_ofNat_byte, UInt8.toNat_ofNat']
  omega

theorem letters_toUTF8 (words : String) :
    letters words.toUTF8 =
      (words.toList.flatMap String.utf8EncodeChar).map fun byte => Char.ofNat byte.toNat := by
  rw [← octets_eq_flatMap]
  rfl

theorem Bracket.not_mem_marks_of_le {char : Char} (large : 128 ≤ char.toNat) :
    char ∉ Bracket.marks := by
  intro mem
  have small : ∀ mark ∈ Bracket.marks, mark.toNat < 128 := by decide
  exact absurd (small char mem) (by omega)

/-- The brackets of a text are those of its bytes. -/
theorem Bracket.scan_letters_toUTF8 (opened : List Bracket) (words : String) :
    Bracket.scan opened (letters words.toUTF8) = Bracket.scan opened words.toList := by
  rw [letters_toUTF8]
  generalize words.toList = chars
  induction chars generalizing opened with
  | nil => rfl
  | cons char chars ih =>
    rw [List.flatMap_cons, List.map_append, Bracket.scan_append, Bracket.scan_cons]
    rcases utf8EncodeChar_cases char with ⟨low, single⟩ | ⟨large, -, high⟩
    · rw [single, List.map_singleton, ofNat_byte_of_ascii low, Bracket.scan_cons]
      cases Bracket.behind opened char with
      | none => rfl
      | some opened => exact ih opened
    · rw [Bracket.behind_of_not_mem (Bracket.not_mem_marks_of_le large),
        Bracket.scan_of_forall fun other mem => ?_]
      · exact ih opened
      · obtain ⟨byte, inside, rfl⟩ := List.mem_map.mp mem
        refine Bracket.not_mem_marks_of_le ?_
        rw [toNat_ofNat_byte]
        exact high byte inside

end Unmangle
