import Mathlib
import Unmangle.Spelling.HexFloat

/-!
# Hexadecimal constants

A hexadecimal floating constant of the C language denotes a rational number: its digits, as one
number, scaled by sixteen for each digit behind the point and by two to the power that it gives.
A significand that is written without the zeros at its end still denotes the same.
-/
namespace Unmangle.HexFloat

/-- The value of a hex digit. -/
def charValue? (char : Char) : Option Nat :=
  if '0' ≤ char ∧ char ≤ '9' then some (char.toNat - 48)
  else if 'a' ≤ char ∧ char ≤ 'f' then some (char.toNat - 87)
  else if 'A' ≤ char ∧ char ≤ 'F' then some (char.toNat - 55)
  else none

/-- The number that hex digits go on to write behind those of another. -/
def continue? (start : Nat) (digits : List Char) : Option Nat :=
  digits.foldlM (fun value digit => (charValue? digit).map (value * 16 + ·)) start

def decimal? (digits : List Char) : Option Nat :=
  if digits.isEmpty || !digits.all Char.isDigit then none
  else some (Nat.ofDigitChars 10 digits 0)

/-- A power, which may have a sign. -/
def power? : List Char → Option Int
  | '-' :: digits => (decimal? digits).map fun (power : Nat) => -(power : Int)
  | '+' :: digits => (decimal? digits).map fun (power : Nat) => (power : Int)
  | digits => (decimal? digits).map fun (power : Nat) => (power : Int)

/-- What a hexadecimal floating constant denotes: `0x`, digits with or without a point, `p` and a
power of two. -/
def constant? : List Char → Option ℚ
  | '0' :: 'x' :: words =>
    let significand := words.takeWhile (· != 'p')
    let whole := significand.takeWhile (· != '.')
    let behind := (significand.dropWhile (· != '.')).tail
    if (whole ++ behind).isEmpty then none
    else
      match words.dropWhile (· != 'p') with
      | 'p' :: power => do
        let digits ← continue? 0 (whole ++ behind)
        let power ← power? power
        return digits / 16 ^ behind.length * 2 ^ power
      | _ => none
  | _ => none

/-- What a constant denotes that may have a sign in front. -/
def signed? : List Char → Option ℚ
  | '-' :: words => (constant? words).map (- ·)
  | words => constant? words

/-! ## Digits -/

theorem charValue?_hexDigit {value : Nat} (small : value < 16) :
    charValue? (hexDigit value) = some value := by
  have all : ∀ value : Fin 16, charValue? (hexDigit value) = some value.val := by decide
  exact all ⟨value, small⟩

theorem hexDigit_ne {value : Nat} (small : value < 16) :
    hexDigit value ≠ 'p' ∧ hexDigit value ≠ '.' := by
  have all : ∀ value : Fin 16, hexDigit value ≠ 'p' ∧ hexDigit value ≠ '.' := by decide
  exact all ⟨value, small⟩

theorem continue?_cons {start value : Nat} {digit : Char} (digits : List Char)
    (known : charValue? digit = some value) :
    continue? start (digit :: digits) = continue? (start * 16 + value) digits := by
  rw [continue?, List.foldlM_cons, known]
  rfl

theorem continue?_append (start : Nat) (digits digits' : List Char) :
    continue? start (digits ++ digits') = (continue? start digits).bind (continue? · digits') := by
  rw [continue?, List.foldlM_append]
  rfl

theorem continue?_zeros (start count : Nat) :
    continue? start (List.replicate count '0') = some (start * 16 ^ count) := by
  induction count generalizing start with
  | zero => rw [Nat.pow_zero, Nat.mul_one]; rfl
  | succ count ih =>
    rw [List.replicate_succ, @continue?_cons _ 0 _ _ (by decide), ih, Nat.pow_succ]
    congr 1
    ring

/-- Hex digits are read on to the number they stand for. -/
theorem continue?_hexDigits (start number count : Nat) (small : number < 16 ^ count) :
    continue? start (hexDigits number count) = some (start * 16 ^ count + number) := by
  induction count generalizing number with
  | zero =>
    obtain rfl : number = 0 := Nat.lt_one_iff.mp small
    rw [Nat.pow_zero, Nat.mul_one, Nat.add_zero]
    rfl
  | succ count ih =>
    rw [Nat.pow_succ] at small
    have digit : number % 16 < 16 := Nat.mod_lt _ (by decide)
    rw [hexDigits, continue?_append, ih (number / 16) (by omega), Option.bind_some,
      continue?_cons _ (charValue?_hexDigit digit), Nat.pow_succ]
    refine congrArg some ?_
    rw [Nat.add_mul, Nat.mul_assoc, Nat.add_assoc, Nat.mul_comm (number / 16), Nat.div_add_mod]

theorem length_hexDigits (number count : Nat) : (hexDigits number count).length = count := by
  induction count generalizing number with
  | zero => rfl
  | succ count ih => rw [hexDigits, List.length_append, ih]; rfl

theorem mem_hexDigits {number count : Nat} {char : Char} (member : char ∈ hexDigits number count) :
    char ≠ 'p' ∧ char ≠ '.' := by
  induction count generalizing number with
  | zero => cases member
  | succ count ih =>
    rw [hexDigits, List.mem_append, List.mem_singleton] at member
    obtain member | rfl := member
    · exact ih member
    · exact hexDigit_ne (Nat.mod_lt _ (by decide))

/-- The digits of a fraction lack the zeros at the end, and nothing else. -/
theorem hexDigits_eq_fraction (number count : Nat) :
    ∃ zeros, hexDigits number count = fraction number count ++ List.replicate zeros '0' := by
  have zeros : ∀ char ∈ (hexDigits number count).reverse.takeWhile (· == '0'), char = '0' := by
    intro char member
    have zero := List.mem_takeWhile_imp member
    exact beq_iff_eq.mp zero
  have ending := List.eq_replicate_of_mem zeros
  refine ⟨((hexDigits number count).reverse.takeWhile (· == '0')).length, ?_⟩
  calc hexDigits number count
    _ = ((hexDigits number count).reverse.takeWhile (· == '0') ++
          (hexDigits number count).reverse.dropWhile (· == '0')).reverse := by
        rw [List.takeWhile_append_dropWhile, List.reverse_reverse]
    _ = fraction number count ++
          ((hexDigits number count).reverse.takeWhile (· == '0')).reverse := by
        rw [List.reverse_append]
        rfl
    _ = fraction number count ++ List.replicate _ '0' := by
        conv_lhs => rw [ending, List.reverse_replicate]

/-- A number before a fraction, without the zeros at its end, is what it was, by the scale of
its digits. -/
theorem continue?_fraction (start number count : Nat) (small : number < 16 ^ count) :
    ∃ value, continue? start (fraction number count) = some value ∧
      (value : ℚ) / 16 ^ (fraction number count).length =
        (start * 16 ^ count + number : ℚ) / 16 ^ count := by
  obtain ⟨zeros, whole⟩ := hexDigits_eq_fraction number count
  have all := continue?_hexDigits start number count small
  rw [whole, continue?_append] at all
  obtain ⟨value, given, rest⟩ := Option.bind_eq_some_iff.mp all
  rw [continue?_zeros, Option.some.injEq] at rest
  have length : count = (fraction number count).length + zeros := by
    rw [← List.length_replicate (n := zeros) (a := '0'), ← List.length_append, ← whole,
      length_hexDigits]
  refine ⟨value, given, ?_⟩
  have scaled : (start * 16 ^ count + number : ℚ) = value * 16 ^ zeros := by exact_mod_cast rest.symm
  rw [scaled]
  conv_rhs => rw [length, pow_add]
  rw [mul_div_mul_right _ _ (by positivity)]

theorem mem_fraction {number count : Nat} {char : Char} (member : char ∈ fraction number count) :
    char ≠ 'p' ∧ char ≠ '.' := by
  obtain ⟨zeros, whole⟩ := hexDigits_eq_fraction number count
  exact mem_hexDigits (whole ▸ List.mem_append_left _ member)

/-! ## Powers -/

/-- A number is read back from its decimal digits. -/
theorem decimal?_repr (number : Nat) : decimal? number.repr.toList = some number := by
  have digits : (Nat.toDigits 10 number).all Char.isDigit = true :=
    List.all_eq_true.mpr fun _ member => Nat.isDigit_of_mem_toDigits (by decide) (by decide) member
  have some : (Nat.toDigits 10 number).isEmpty = false := by
    rw [List.isEmpty_eq_false_iff]
    exact Nat.toDigits_ne_nil
  rw [Nat.toList_repr, decimal?, digits, some, Nat.ofDigitChars_ten_toDigits]
  rfl

/-- An exponent is read back from its text. -/
theorem power?_exponent (power : Int) : power? (exponent power) = some power := by
  unfold exponent
  by_cases negative : power < 0
  · rw [if_pos negative, power?, decimal?_repr, Option.map_some, Option.some.injEq]
    omega
  · rw [if_neg negative, power?, decimal?_repr, Option.map_some, Option.some.injEq]
    omega

/-! ## Constants -/

/-- A constant whose digits are written in full denotes its digits, scaled. -/
theorem constant?_eq {whole behind power : List Char} {digits : Nat} {exponent : Int}
    (point : List Char) (pointed : point = [] ∧ behind = [] ∨ point = ['.'])
    (plain : ∀ char ∈ whole ++ behind, char ≠ 'p' ∧ char ≠ '.') (some : whole ≠ [])
    (value : continue? 0 (whole ++ behind) = .some digits) (given : power? power = .some exponent) :
    constant? ('0' :: 'x' :: (whole ++ (point ++ (behind ++ 'p' :: power)))) =
      .some (digits / 16 ^ behind.length * 2 ^ exponent) := by
  have notP : ∀ char ∈ whole ++ (point ++ behind), (char != 'p') = true := by
    intro char member
    rw [List.mem_append, List.mem_append] at member
    obtain member | member | member := member
    · exact bne_iff_ne.mpr (plain char (List.mem_append_left _ member)).1
    · obtain ⟨rfl, -⟩ | rfl := pointed
      · cases member
      · obtain rfl := List.mem_singleton.mp member
        decide
    · exact bne_iff_ne.mpr (plain char (List.mem_append_right _ member)).1
  have notPoint : ∀ char ∈ whole, (char != '.') = true := fun char member =>
    bne_iff_ne.mpr (plain char (List.mem_append_left _ member)).2
  have regroup : whole ++ (point ++ (behind ++ 'p' :: power)) =
      (whole ++ (point ++ behind)) ++ 'p' :: power := by simp only [List.append_assoc]
  have significand : ((whole ++ (point ++ behind)) ++ 'p' :: power).takeWhile (· != 'p') =
      whole ++ (point ++ behind) := by
    rw [List.takeWhile_append_of_pos notP, List.takeWhile_cons_of_neg (by decide), List.append_nil]
  have rest : ((whole ++ (point ++ behind)) ++ 'p' :: power).dropWhile (· != 'p') = 'p' :: power := by
    rw [List.dropWhile_append_of_pos notP, List.dropWhile_cons_of_neg (by decide)]
  have front : (whole ++ (point ++ behind)).takeWhile (· != '.') = whole := by
    rw [List.takeWhile_append_of_pos notPoint]
    obtain ⟨rfl, rfl⟩ | rfl := pointed
    · exact List.append_nil _
    · rw [List.singleton_append, List.takeWhile_cons_of_neg (by decide), List.append_nil]
  have back : ((whole ++ (point ++ behind)).dropWhile (· != '.')).tail = behind := by
    rw [List.dropWhile_append_of_pos notPoint]
    obtain ⟨rfl, rfl⟩ | rfl := pointed
    · rfl
    · rw [List.singleton_append, List.dropWhile_cons_of_neg (by decide), List.tail_cons]
  have nonempty : (whole ++ behind).isEmpty = false := by
    rw [List.isEmpty_eq_false_iff]
    exact List.append_ne_nil_of_left_ne_nil some _
  rw [regroup, constant?]
  simp only [significand, rest, front, back, nonempty, value, given, Bool.false_eq_true, if_false]
  rfl

/-- A digit, a fraction without the zeros at its end and a power denote the digits, scaled. -/
theorem constant?_pointed {lead number count : Nat} (small : lead < 16) (below : number < 16 ^ count)
    (power : Int) :
    constant? ('0' :: 'x' :: hexDigit lead :: (pointed number count ++ 'p' :: exponent power)) =
      some ((lead * 16 ^ count + number : ℚ) / 16 ^ count * 2 ^ power) := by
  obtain ⟨digits, value, scaled⟩ := continue?_fraction lead number count below
  have first : continue? 0 ([hexDigit lead] ++ fraction number count) = some digits := by
    rw [List.singleton_append, continue?_cons _ (charValue?_hexDigit small), Nat.zero_mul,
      Nat.zero_add, value]
  have plain : ∀ char ∈ [hexDigit lead] ++ fraction number count, char ≠ 'p' ∧ char ≠ '.' := by
    rw [List.singleton_append]
    exact List.forall_mem_cons.mpr ⟨hexDigit_ne small, fun _ => mem_fraction⟩
  rw [← scaled]
  unfold pointed
  cases fractional : fraction number count with
  | nil =>
    rw [fractional] at first plain
    exact constant?_eq [] (.inl ⟨rfl, rfl⟩) plain (List.cons_ne_nil _ _) first (power?_exponent power)
  | cons digit digits =>
    rw [fractional] at first plain
    exact constant?_eq ['.'] (.inr rfl) plain (List.cons_ne_nil _ _) first (power?_exponent power)

/-- The point stands even before a fraction of nothing. -/
theorem constant?_fraction {number count : Nat} (below : number < 16 ^ count) {power : List Char}
    {exponent : Int} (given : power? power = some exponent) :
    constant? ('0' :: 'x' :: '0' :: '.' :: (fraction number count ++ 'p' :: power)) =
      some ((number : ℚ) / 16 ^ count * 2 ^ exponent) := by
  obtain ⟨digits, value, scaled⟩ := continue?_fraction 0 number count below
  have first : continue? 0 (['0'] ++ fraction number count) = some digits := by
    rw [List.singleton_append, @continue?_cons _ 0 _ _ (by decide)]
    exact value
  have plain : ∀ char ∈ ['0'] ++ fraction number count, char ≠ 'p' ∧ char ≠ '.' := by
    rw [List.singleton_append]
    exact List.forall_mem_cons.mpr ⟨by decide, fun _ => mem_fraction⟩
  have same := constant?_eq ['.'] (.inr rfl) plain (List.cons_ne_nil _ _) first given
  rw [scaled] at same
  simpa using same

/-- A sign in front negates what a constant denotes. -/
theorem signed?_sign (isNegative : Bool) {words : List Char} {value : ℚ}
    (given : constant? ('0' :: words) = some value) :
    signed? (sign isNegative ++ '0' :: words) = some (if isNegative then -value else value) := by
  cases isNegative with
  | false => exact given
  | true =>
    rw [sign, if_pos rfl, List.singleton_append, signed?, given]
    rfl

end Unmangle.HexFloat
