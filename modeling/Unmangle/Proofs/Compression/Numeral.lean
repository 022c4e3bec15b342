import Mathlib.Data.List.Induction
import Mathlib.Data.Nat.Digits.Defs
import Unmangle.Grammar.Cursor
import Unmangle.Grammar.Number

/-!
# Numerals

Numbers as a symbol writes them: in base ten in front of an identifier, and in base
thirty-six, with capital letters behind the digits, in a substitution. However many digits there
are, they are read as the number that they denote, if that number fits.
-/
namespace Unmangle

def octets (words : String) : List UInt8 :=
  words.toUTF8.data.toList

theorem octets_append (words words' : String) :
    octets (words ++ words') = octets words ++ octets words' := by
  simp [octets]

theorem length_octets (words : String) : (octets words).length = words.utf8ByteSize := by
  rw [octets, Array.length_toList]
  rfl

/-- Whether something holds of the members of a list is found by going through the list, also where
their type has finitely many members to go through. -/
instance (priority := 2000) decidableForallMem {α : Type} {P : α → Prop} [DecidablePred P]
    (items : List α) : Decidable (∀ item ∈ items, P item) :=
  List.decidableBAll P items

namespace Number

def digitChar (value : Nat) : Char :=
  if value < 10 then Char.ofNat (48 + value) else Char.ofNat (55 + value)

/-- A number in a base from two to thirty-six, without leading zeros. -/
def numeral (base number : Nat) : String :=
  if number < base ∨ base < 2 then String.singleton (digitChar number)
  else numeral base (number / base) ++ String.singleton (digitChar (number % base))
termination_by number
decreasing_by exact Nat.div_lt_self (by omega) (by omega)

def digitByte (value : Nat) : UInt8 :=
  if value < 10 then UInt8.ofNat (48 + value) else UInt8.ofNat (55 + value)

theorem octets_digit {value : Nat} (h : value < 36) :
    octets (String.singleton (digitChar value)) = [digitByte value] := by
  have every : ∀ value : Fin 36,
      octets (String.singleton (digitChar value)) = [digitByte value] := by decide
  exact every ⟨value, h⟩

theorem digitValue_digitByte {value : Nat} (h : value < 36) :
    digitValue (digitByte value) = value := by
  have every : ∀ value : Fin 36, digitValue (digitByte value) = value := by decide
  exact every ⟨value, h⟩

theorem isSeqDigit_digitByte {value : Nat} (h : value < 36) :
    isSeqDigit (digitByte value) = true := by
  have every : ∀ value : Fin 36, isSeqDigit (digitByte value) = true := by decide
  exact every ⟨value, h⟩

theorem isDigit_digitByte {value : Nat} (h : value < 10) : isDigit (digitByte value) = true := by
  have every : ∀ value : Fin 10, isDigit (digitByte value) = true := by decide
  exact every ⟨value, h⟩

variable {base number : Nat}

/-- The number that a string of digits denotes, highest digit first. -/
def denoted (digits : List (Fin base)) : Nat :=
  Nat.ofDigits base (digits.reverse.map Fin.val)

def written (digits : List (Fin base)) : List UInt8 :=
  digits.map fun digit => digitByte digit.val

example : ∀ digit : Fin 36, written [digit] =
    ((octets "0123456789ABCDEFGHIJKLMNOPQRSTUVWXYZ").drop digit).take 1 := by decide

/-- One digit, or the digits of the number without the last. -/
theorem octets_numeral (two : 2 ≤ base) (most : base ≤ 36) (number : Nat) :
    octets (numeral base number) =
      if number < base then [digitByte number]
      else octets (numeral base (number / base)) ++ [digitByte (number % base)] := by
  rw [numeral]
  by_cases small : number < base
  · rw [if_pos (.inl small), if_pos small, octets_digit (by omega)]
  · have digit : number % base < base := Nat.mod_lt _ (by omega)
    rw [if_neg (by omega), if_neg small, octets_append, octets_digit (by omega)]

theorem value?_append_digit (digits : List UInt8) (digit : UInt8) :
    value? base (digits ++ [digit]) = (value? base digits).bind fun value =>
      if value * base + digitValue digit < bound then some (value * base + digitValue digit)
      else none := by
  simp only [value?, List.foldlM_append, List.foldlM_cons, List.foldlM_nil, bind_pure]
  rfl

theorem denoted_concat (digits : List (Fin base)) (digit : Fin base) :
    denoted (digits ++ [digit]) = denoted digits * base + digit := by
  rw [denoted, List.reverse_concat, List.map_cons, Nat.ofDigits_cons, denoted, Nat.mul_comm,
    Nat.add_comm]

theorem written_concat (digits : List (Fin base)) (digit : Fin base) :
    written (digits ++ [digit]) = written digits ++ [digitByte digit] := by
  simp [written]

/-- Digits have a value exactly where the number that they denote fits. Once a number is too large,
no digit behind makes it smaller. -/
theorem value?_written (most : base ≤ 36) (digits : List (Fin base)) :
    value? base (written digits) =
      if denoted digits < bound then some (denoted digits) else none := by
  induction digits using List.reverseRecOn with
  | nil => rfl
  | append_singleton digits digit ih =>
    have below := digit.isLt
    rw [written_concat, value?_append_digit, ih, denoted_concat, digitValue_digitByte (by omega)]
    by_cases fits : denoted digits < bound
    · rw [if_pos fits, Option.bind_some]
    · have grows : denoted digits ≤ denoted digits * base :=
        Nat.le_mul_of_pos_right _ (by omega)
      rw [if_neg fits, Option.bind_none, if_neg (by omega)]

theorem all_written {property : UInt8 → Bool}
    (holds : ∀ value < base, property (digitByte value) = true) (digits : List (Fin base)) :
    ∀ byte ∈ written digits, property byte = true := by
  intro byte member
  obtain ⟨digit, -, rfl⟩ := List.mem_map.mp member
  exact holds digit digit.isLt

/-- A numeral is a string of digits that denotes its number. -/
theorem exists_written_numeral (two : 2 ≤ base) (most : base ≤ 36) (number : Nat) :
    ∃ digits : List (Fin base), octets (numeral base number) = written digits ∧
      denoted digits = number := by
  induction number using Nat.strongRecOn with
  | ind number ih =>
    rw [octets_numeral two most]
    by_cases small : number < base
    · rw [if_pos small]
      exact ⟨[⟨number, small⟩], rfl, Nat.ofDigits_singleton⟩
    · have digit : number % base < base := Nat.mod_lt _ (by omega)
      obtain ⟨digits, same, value⟩ :=
        ih (number / base) (Nat.div_lt_self (by omega) (by omega))
      refine ⟨digits ++ [⟨number % base, digit⟩], ?_, ?_⟩
      · rw [if_neg small, same, written_concat]
      · rw [denoted_concat, value, Nat.div_add_mod']

theorem value?_numeral_eq (two : 2 ≤ base) (most : base ≤ 36) (number : Nat) :
    value? base (octets (numeral base number)) = if number < bound then some number else none := by
  obtain ⟨digits, same, value⟩ := exists_written_numeral two most number
  rw [same, value?_written most, value]

/-- What a numeral writes is read again. -/
theorem value?_numeral (two : 2 ≤ base) (most : base ≤ 36) (fits : number < bound) :
    value? base (octets (numeral base number)) = some number := by
  rw [value?_numeral_eq two most, if_pos fits]

theorem all_numeral {property : UInt8 → Bool} (two : 2 ≤ base) (most : base ≤ 36)
    (holds : ∀ value < base, property (digitByte value) = true) (number : Nat) :
    ∀ byte ∈ octets (numeral base number), property byte = true := by
  obtain ⟨digits, same, -⟩ := exists_written_numeral two most number
  rw [same]
  exact all_written holds digits

/-- A numeral begins with a digit, and with a digit other than zero unless it is zero. -/
theorem head_numeral (two : 2 ≤ base) (most : base ≤ 36) (number : Nat) :
    ∃ value rest, octets (numeral base number) = digitByte value :: rest ∧ value < base ∧
      (0 < number → 0 < value) := by
  induction number using Nat.strongRecOn with
  | ind number ih =>
    rw [octets_numeral two most]
    by_cases small : number < base
    · rw [if_pos small]
      exact ⟨number, [], rfl, small, id⟩
    · obtain ⟨value, rest, hrest, below, positive⟩ :=
        ih (number / base) (Nat.div_lt_self (by omega) (by omega))
      rw [if_neg small, hrest]
      refine ⟨value, _, rfl, below, fun _ => positive ?_⟩
      exact Nat.div_pos (by omega) (by omega)

end Number
end Unmangle
