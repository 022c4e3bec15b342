import Mathlib
import Unmangle.Proofs.Course.Literal
import Unmangle.Proofs.Literal.Constant

/-!
# The number that a bit pattern encodes

A pattern has a sign, a power and a significand. The interchange formats have a leading bit that
is not written, and none where the power is zero; the format of eighty bits writes its leading
bit. A literal denotes the number that its pattern encodes, but for patterns of eighty bits whose
power is zero: these are written with the power below theirs, and denote half of it.
-/
namespace Unmangle

namespace FloatFormat

def power : FloatFormat → Nat → Nat
  | single, bits => bits / 2 ^ 23 % 2 ^ 8
  | double, bits => bits / 2 ^ 52 % 2 ^ 11
  | extended, bits => bits / 2 ^ 64 % 2 ^ 15

/-- The power of infinities, and of what is no number. -/
def lastPower : FloatFormat → Nat
  | single => 255
  | double => 2047
  | extended => 32767

def significand : FloatFormat → Nat → Nat
  | single, bits => bits % 2 ^ 23
  | double, bits => bits % 2 ^ 52
  | extended, bits => bits % 2 ^ 64

def isNegative (format : FloatFormat) (bits : Nat) : Bool :=
  bits / 2 ^ (4 * format.digits - 1) % 2 == 1

/-- A number in an interchange format, by its bias and the bits of its fraction. -/
def interchange (bias fraction power significand : Nat) : ℚ :=
  if power = 0 then significand / 2 ^ fraction * 2 ^ (1 - bias : ℤ)
  else (1 + significand / 2 ^ fraction) * 2 ^ (power - bias : ℤ)

/-- The number that a pattern encodes, but for its sign. -/
def magnitude (format : FloatFormat) (bits : Nat) : ℚ :=
  match format with
  | single => interchange 127 23 (single.power bits) (single.significand bits)
  | double => interchange 1023 52 (double.power bits) (double.significand bits)
  | extended => extended.significand bits * 2 ^ (max (extended.power bits) 1 - 16383 - 63 : ℤ)

theorem magnitude_single (bits : Nat) :
    single.magnitude bits = interchange 127 23 (single.power bits) (single.significand bits) :=
  rfl

theorem magnitude_double (bits : Nat) :
    double.magnitude bits = interchange 1023 52 (double.power bits) (double.significand bits) :=
  rfl

theorem magnitude_extended (bits : Nat) :
    extended.magnitude bits =
      extended.significand bits * 2 ^ (max (extended.power bits) 1 - 16383 - 63 : ℤ) :=
  rfl

/-- The number that a pattern encodes. -/
def value (format : FloatFormat) (bits : Nat) : ℚ :=
  if format.isNegative bits then -format.magnitude bits else format.magnitude bits

def suffix : FloatFormat → List Char
  | single => ['f']
  | double => []
  | extended => ['L']

/-- A pattern with an explicit leading bit, the power zero, and a significand that is not. -/
def IsDenormal (format : FloatFormat) (bits : Nat) : Prop :=
  format = extended ∧ format.power bits = 0 ∧ format.significand bits ≠ 0

instance (format : FloatFormat) (bits : Nat) : Decidable (format.IsDenormal bits) :=
  inferInstanceAs (Decidable (_ ∧ _ ∧ _))

/-- The number that a pattern is written as, but for its sign. -/
def written (format : FloatFormat) (bits : Nat) : ℚ :=
  if format.IsDenormal bits then format.magnitude bits / 2 else format.magnitude bits

theorem not_isDenormal {format : FloatFormat} (interchange : format ≠ extended) (bits : Nat) :
    ¬format.IsDenormal bits :=
  fun denormal => interchange denormal.1

theorem magnitude_pos_of_isDenormal {format : FloatFormat} {bits : Nat}
    (denormal : format.IsDenormal bits) : 0 < format.magnitude bits := by
  obtain ⟨rfl, -, some⟩ := denormal
  have positive : 0 < extended.significand bits := Nat.pos_of_ne_zero some
  rw [magnitude_extended]
  positivity

/-- Half of a number is another one, unless it is zero. -/
theorem written_eq_iff (format : FloatFormat) (bits : Nat) :
    format.written bits = format.magnitude bits ↔ ¬format.IsDenormal bits := by
  unfold written
  by_cases denormal : format.IsDenormal bits
  · have positive := magnitude_pos_of_isDenormal denormal
    rw [if_pos denormal]
    exact iff_of_false (by linarith) (not_not_intro denormal)
  · rw [if_neg denormal]
    exact iff_of_true rfl denormal

end FloatFormat

namespace HexFloat

/-- Words that denote a number exactly. Zero has a sign too. -/
structure Denotes (words : List Char) (isNegative : Bool) (magnitude : ℚ) : Prop where
  sign : words.head? = some '-' ↔ isNegative = true
  value : signed? words = some (if isNegative then -magnitude else magnitude)

theorem denotes_sign {words : List Char} {isNegative : Bool} {magnitude : ℚ}
    (given : constant? ('0' :: words) = some magnitude) :
    Denotes (sign isNegative ++ '0' :: words) isNegative magnitude := by
  refine ⟨?_, signed?_sign isNegative given⟩
  cases isNegative with
  | false => exact iff_of_false (by simp [sign]) Bool.false_ne_true
  | true => exact iff_of_true rfl rfl

theorem field_eq (pattern low width : Nat) :
    field pattern low width = pattern / 2 ^ low % 2 ^ width := by
  rw [field, Nat.shiftRight_eq_div_pow, Nat.one_shiftLeft]

theorem constant?_zero : constant? "0x0p+0".toList = some 0 := by
  have power : power? ['+', '0'] = some 0 := by decide
  have plain : ∀ char ∈ ['0'] ++ [], char ≠ 'p' ∧ char ≠ '.' := by simp
  have zero : continue? 0 (['0'] ++ []) = some 0 := rfl
  have read := constant?_eq [] (.inl ⟨rfl, rfl⟩) plain (List.cons_ne_nil _ _) zero power
  rw [Nat.cast_zero, zero_div, zero_mul] at read
  exact read

/-! ## Sixty-four bits -/

/-- A finite `double` is written as the number it encodes. -/
theorem denotes_double {bits : Nat}
    (finite : FloatFormat.double.power bits ≠ FloatFormat.double.lastPower) :
    Denotes (double bits) (FloatFormat.double.isNegative bits)
      (FloatFormat.double.magnitude bits) := by
  have atPower : field bits 52 11 = FloatFormat.double.power bits := field_eq _ _ _
  have atRest : field bits 0 52 = FloatFormat.double.significand bits := by
    rw [field_eq, Nat.pow_zero, Nat.div_one]
    rfl
  have negative : (field bits 63 1 == 1) = FloatFormat.double.isNegative bits := by
    rw [field_eq]
    rfl
  have below : FloatFormat.double.significand bits < 16 ^ 13 := Nat.mod_lt _ (by decide)
  have finite : FloatFormat.double.power bits ≠ 0x7ff := finite
  rw [double, atPower, atRest, negative, if_neg finite, FloatFormat.magnitude_double]
  generalize FloatFormat.double.power bits = power
  generalize FloatFormat.double.significand bits = rest at below
  by_cases subnormal : power = 0
  · rw [if_pos subnormal, FloatFormat.interchange, if_pos subnormal]
    by_cases zero : rest = 0
    · rw [if_pos zero, zero, Nat.cast_zero, zero_div, zero_mul]
      exact denotes_sign constant?_zero
    · have front : "0x0.".toList = ['0', 'x', '0', '.'] := by decide
      have back : "p-1022".toList = ['p', '-', '1', '0', '2', '2'] := by decide
      have scale : power? ['-', '1', '0', '2', '2'] = some (1 - 1023) := by decide
      have same : (rest : ℚ) / 16 ^ 13 = rest / 2 ^ 52 := by norm_num
      rw [if_neg zero, ← same, front, back]
      simp only [List.cons_append, List.nil_append]
      exact denotes_sign (constant?_fraction below scale)
  · have same : ((1 : Nat) * 16 ^ 13 + rest : ℚ) / 16 ^ 13 = 1 + rest / 2 ^ 52 := by
      norm_num
      ring
    have lead : "0x1".toList = ['0', 'x', hexDigit 1] := by decide
    rw [if_neg subnormal, FloatFormat.interchange, if_neg subnormal, ← same, lead]
    simp only [List.cons_append, List.nil_append]
    exact denotes_sign (constant?_pointed (by decide) below _)

/-! ## Thirty-two bits -/

/-- The parts of a pattern of sixty-four bits. -/
theorem double_parts {sign power rest : Nat} (one : sign < 2) (small : power < 2 ^ 11)
    (below : rest < 2 ^ 52) :
    FloatFormat.double.power ((sign <<< 63) + ((power <<< 52) + rest)) = power ∧
      FloatFormat.double.significand ((sign <<< 63) + ((power <<< 52) + rest)) = rest ∧
      FloatFormat.double.isNegative ((sign <<< 63) + ((power <<< 52) + rest)) = (sign == 1) := by
  simp only [FloatFormat.power, FloatFormat.significand, FloatFormat.isNegative, FloatFormat.digits,
    Nat.shiftLeft_eq] at *
  refine ⟨by omega, by omega, ?_⟩
  rw [show ((sign * 2 ^ 63 + (power * 2 ^ 52 + rest)) / 2 ^ (4 * 16 - 1) % 2) = sign by omega]

/-- The first bit of a significand is at most its twenty-third. -/
theorem log2_lt_of_lt {rest : Nat} (below : rest < 2 ^ 23) (some : rest ≠ 0) : Nat.log2 rest < 23 :=
  (Nat.log2_lt some).mpr below

theorem lead_small {rest : Nat} (below : rest < 2 ^ 23) (some : rest ≠ 0) :
    Nat.log2 rest + 874 < 2047 := by
  have lead := log2_lt_of_lt below some
  omega

/-- What is behind the first bit fits behind the point. -/
theorem shifted_small {rest : Nat} (below : rest < 2 ^ 23) (some : rest ≠ 0) :
    (rest % 2 ^ Nat.log2 rest) <<< (52 - Nat.log2 rest) < 2 ^ 52 := by
  have lead := log2_lt_of_lt below some
  have behind : rest % 2 ^ Nat.log2 rest < 2 ^ Nat.log2 rest := Nat.mod_lt _ (by positivity)
  rw [Nat.shiftLeft_eq]
  calc rest % 2 ^ Nat.log2 rest * 2 ^ (52 - Nat.log2 rest)
    _ < 2 ^ Nat.log2 rest * 2 ^ (52 - Nat.log2 rest) :=
        Nat.mul_lt_mul_of_pos_right behind (by positivity)
    _ = 2 ^ 52 := by rw [← pow_add, Nat.add_sub_cancel' (by omega)]

/-- What is behind the first bit, and that bit. -/
theorem mod_log2 {rest : Nat} (some : rest ≠ 0) :
    rest = 2 ^ Nat.log2 rest + rest % 2 ^ Nat.log2 rest := by
  have low := Nat.log2_self_le some
  have high := @Nat.lt_log2_self rest
  have quotient : rest / 2 ^ Nat.log2 rest = 1 := by
    rw [Nat.div_eq_iff (by positivity)]
    rw [Nat.pow_succ] at high
    omega
  have parts := Nat.div_add_mod rest (2 ^ Nat.log2 rest)
  rw [quotient, Nat.mul_one] at parts
  exact parts.symm

/-- What is subnormal in the short format is normal in the long one. -/
theorem interchange_normalized {rest : Nat} (below : rest < 2 ^ 23) (some : rest ≠ 0) :
    FloatFormat.interchange 1023 52 (Nat.log2 rest + 874)
        ((rest % 2 ^ Nat.log2 rest) <<< (52 - Nat.log2 rest)) =
      FloatFormat.interchange 127 23 0 rest := by
  have lead := log2_lt_of_lt below some
  have whole : (rest : ℚ) = 2 ^ Nat.log2 rest + (rest % 2 ^ Nat.log2 rest : Nat) := by
    exact_mod_cast mod_log2 some
  have scale : (2 : ℚ) ^ 52 = 2 ^ (52 - Nat.log2 rest) * 2 ^ Nat.log2 rest := by
    rw [← pow_add, Nat.sub_add_cancel (by omega)]
  have shift : ((Nat.log2 rest + 874 : Nat) - 1023 : ℤ) = Nat.log2 rest + (-149) := by
    push_cast
    ring
  rw [FloatFormat.interchange, FloatFormat.interchange, if_neg (by omega), if_pos rfl,
    Nat.shiftLeft_eq, Nat.cast_mul, Nat.cast_pow, Nat.cast_two, scale, mul_comm (_ : ℚ) (2 ^ (52 - _)),
    mul_div_mul_left _ _ (by positivity)]
  push_cast at shift ⊢
  rw [shift, zpow_add₀ (by norm_num), zpow_natCast, ← mul_assoc, add_mul, one_mul,
    div_mul_cancel₀ _ (by positivity)]
  rw [← whole]
  norm_num
  ring

/-- What sixty-four bits with such parts encode, short of the last power. -/
theorem finite_of_parts {long sign power rest : Nat} (one : sign < 2) (small : power < 2047)
    (below : rest < 2 ^ 52) (written : long = (sign <<< 63) + ((power <<< 52) + rest)) :
    FloatFormat.double.power long ≠ FloatFormat.double.lastPower ∧
      FloatFormat.double.isNegative long = (sign == 1) ∧
      FloatFormat.double.magnitude long = FloatFormat.interchange 1023 52 power rest := by
  obtain ⟨atPower, atRest, atSign⟩ := double_parts one (Nat.lt_of_lt_of_le small (by decide)) below
  rw [written, FloatFormat.magnitude_double, atPower, atRest, atSign]
  exact ⟨Nat.ne_of_lt small, rfl, rfl⟩

/-- A number of the short format is the same one in the long format. -/
theorem widen_exact {bits : Nat}
    (finite : FloatFormat.single.power bits ≠ FloatFormat.single.lastPower) :
    FloatFormat.double.power (widen bits) ≠ FloatFormat.double.lastPower ∧
      FloatFormat.double.isNegative (widen bits) = FloatFormat.single.isNegative bits ∧
      FloatFormat.double.magnitude (widen bits) = FloatFormat.single.magnitude bits := by
  have atPower : field bits 23 8 = FloatFormat.single.power bits := field_eq _ _ _
  have atRest : field bits 0 23 = FloatFormat.single.significand bits := by
    rw [field_eq, Nat.pow_zero, Nat.div_one]
    rfl
  have atSign : field bits 31 1 = bits / 2 ^ 31 % 2 := field_eq _ _ _
  have one : bits / 2 ^ 31 % 2 < 2 := Nat.mod_lt _ (by decide)
  have negative : FloatFormat.single.isNegative bits = (bits / 2 ^ 31 % 2 == 1) := rfl
  have small : FloatFormat.single.power bits < 255 :=
    lt_of_le_of_ne (Nat.le_of_lt_succ (Nat.mod_lt _ (by decide))) finite
  have below : FloatFormat.single.significand bits < 2 ^ 23 := Nat.mod_lt _ (by decide)
  have written : widen bits = (bits / 2 ^ 31 % 2) <<< 63 + _ :=
    congrArg₂ (· <<< 63 + ·) atSign rfl
  rw [atPower, atRest, if_neg (show FloatFormat.single.power bits ≠ 0xff from finite)] at written
  rw [FloatFormat.magnitude_single, negative]
  generalize FloatFormat.single.power bits = power at *
  generalize FloatFormat.single.significand bits = rest at *
  by_cases subnormal : power = 0
  · rw [if_pos subnormal] at written
    by_cases zero : rest = 0
    · have zeros : widen bits = (bits / 2 ^ 31 % 2) <<< 63 + ((0 <<< 52) + 0) := by
        rw [written, if_pos zero, Nat.zero_shiftLeft]
      obtain ⟨finite, sign, magnitude⟩ := finite_of_parts one (by decide) (by decide) zeros
      refine ⟨finite, sign, magnitude.trans ?_⟩
      rw [subnormal, zero]
      simp [FloatFormat.interchange]
    · rw [if_neg zero] at written
      simp only [field_eq, Nat.pow_zero, Nat.div_one] at written
      obtain ⟨finite, sign, magnitude⟩ :=
        finite_of_parts one (lead_small below zero) (shifted_small below zero) written
      exact ⟨finite, sign, magnitude.trans (subnormal ▸ interchange_normalized below zero)⟩
  · rw [if_neg subnormal] at written
    have shifted : rest <<< 29 < 2 ^ 52 := by
      rw [Nat.shiftLeft_eq]
      omega
    obtain ⟨finite, sign, magnitude⟩ := finite_of_parts one (by omega) shifted written
    refine ⟨finite, sign, magnitude.trans ?_⟩
    have scale : ((power + 896 : Nat) - (1023 : Nat) : ℤ) = power - (127 : Nat) := by
      push_cast
      ring
    rw [FloatFormat.interchange, FloatFormat.interchange, if_neg subnormal, if_neg (by omega), scale,
      Nat.shiftLeft_eq]
    push_cast
    ring

/-- A finite `float` is written as the number it encodes. -/
theorem denotes_single {bits : Nat}
    (finite : FloatFormat.single.power bits ≠ FloatFormat.single.lastPower) :
    Denotes (double (widen bits)) (FloatFormat.single.isNegative bits)
      (FloatFormat.single.magnitude bits) := by
  obtain ⟨finite, sign, magnitude⟩ := widen_exact finite
  rw [← sign, ← magnitude]
  exact denotes_double finite

/-! ## Eighty bits -/

/-- The power that is written is that of the pattern where this is not zero, and one too low
where it is. -/
theorem written_extended {bits : Nat} (some : FloatFormat.extended.significand bits ≠ 0) :
    FloatFormat.extended.written bits = FloatFormat.extended.significand bits / 2 ^ 60 *
      2 ^ ((FloatFormat.extended.power bits : ℤ) - 16386) := by
  have scale (power : ℤ) : (2 : ℚ) ^ (power - 16383 - 63) = 2 ^ (power - 16386) / 2 ^ 60 := by
    rw [← zpow_natCast, ← zpow_sub₀ two_ne_zero]
    congr 1
    omega
  unfold FloatFormat.written
  rw [FloatFormat.magnitude_extended]
  by_cases low : FloatFormat.extended.power bits = 0
  · have double : (2 : ℚ) ^ (((1 : Nat) : ℤ) - 16386) = 2 ^ (((0 : Nat) : ℤ) - 16386) * 2 := by
      rw [← zpow_add_one₀ two_ne_zero]
      congr 1
    rw [if_pos ⟨rfl, low, some⟩, low, Nat.max_eq_right (Nat.zero_le 1), scale, double]
    ring
  · have high : max (FloatFormat.extended.power bits) 1 = FloatFormat.extended.power bits := by
      omega
    rw [if_neg fun denormal => low denormal.2.1, high, scale]
    ring

/-- A finite `long double` is written as its sign and the number that its digits say. -/
theorem denotes_extended {bits : Nat}
    (finite : FloatFormat.extended.power bits ≠ FloatFormat.extended.lastPower) :
    Denotes (extended bits) (FloatFormat.extended.isNegative bits)
      (FloatFormat.extended.written bits) := by
  have atPower : field bits 64 15 = FloatFormat.extended.power bits := field_eq _ _ _
  have atSignificand : field bits 0 64 = FloatFormat.extended.significand bits := by
    rw [field_eq, Nat.pow_zero, Nat.div_one]
    rfl
  have negative : (field bits 79 1 == 1) = FloatFormat.extended.isNegative bits := by
    rw [field_eq]
    rfl
  have below : FloatFormat.extended.significand bits < 2 ^ 64 := Nat.mod_lt _ (by decide)
  have finite : FloatFormat.extended.power bits ≠ 0x7fff := finite
  rw [extended, atPower, atSignificand, negative, if_neg finite]
  by_cases zero : FloatFormat.extended.significand bits = 0
  · have nothing : FloatFormat.extended.written bits = 0 := by
      rw [FloatFormat.written, if_neg fun denormal => denormal.2.2 zero,
        FloatFormat.magnitude_extended, zero, Nat.cast_zero, zero_mul]
    rw [if_pos zero, nothing]
    exact denotes_sign constant?_zero
  · rw [if_neg zero, written_extended zero, field_eq, field_eq]
    generalize FloatFormat.extended.power bits = power
    generalize FloatFormat.extended.significand bits = significand at below
    have lead : significand / 2 ^ 60 % 2 ^ 4 < 16 := Nat.mod_lt _ (by decide)
    have rest : significand / 2 ^ 0 % 2 ^ 60 < 16 ^ 15 := Nat.mod_lt _ (by decide)
    have whole : ((significand / 2 ^ 60 % 2 ^ 4 : Nat) * 16 ^ 15 +
        (significand / 2 ^ 0 % 2 ^ 60 : Nat) : ℚ) / 16 ^ 15 = significand / 2 ^ 60 := by
      have parts : significand / 2 ^ 60 % 2 ^ 4 * 16 ^ 15 + significand / 2 ^ 0 % 2 ^ 60 =
          significand := by omega
      have exact : ((significand / 2 ^ 60 % 2 ^ 4 : Nat) * 16 ^ 15 +
          (significand / 2 ^ 0 % 2 ^ 60 : Nat) : ℚ) = significand := by exact_mod_cast parts
      rw [exact]
      norm_num
    have front : "0x".toList = ['0', 'x'] := by decide
    rw [← whole, front]
    simp only [List.cons_append, List.nil_append]
    exact denotes_sign (constant?_pointed lead rest _)

/-! ## All formats -/

/-- What a pattern is written as, without the letter behind it. -/
def words : FloatFormat → Nat → List Char
  | .single, bits => double (widen bits)
  | .double, bits => double bits
  | .extended, bits => extended bits

/-- What is written for a finite number of any format. -/
theorem denotes_words {format : FloatFormat} {bits : Nat}
    (finite : format.power bits ≠ format.lastPower) :
    Denotes (words format bits) (format.isNegative bits) (format.written bits) := by
  have interchange (other : format ≠ .extended) : format.written bits = format.magnitude bits :=
    (format.written_eq_iff bits).mpr (FloatFormat.not_isDenormal other bits)
  cases format with
  | single =>
    rw [interchange (by decide)]
    exact denotes_single finite
  | double =>
    rw [interchange (by decide)]
    exact denotes_double finite
  | extended => exact denotes_extended finite

/-- The number that a pattern encodes is denoted exactly, unless its power is too low for it. -/
theorem denotes_value_iff {format : FloatFormat} {bits : Nat}
    (finite : format.power bits ≠ format.lastPower) :
    signed? (words format bits) = some (format.value bits) ↔ ¬format.IsDenormal bits := by
  rw [(denotes_words finite).value, ← format.written_eq_iff, FloatFormat.value, Option.some.injEq]
  cases format.isNegative bits with
  | false => exact Iff.rfl
  | true => exact neg_inj

/-- A denormal `long double` is written as half of the number it encodes. -/
theorem denotes_half {format : FloatFormat} {bits : Nat} (finite : format.power bits ≠ format.lastPower)
    (denormal : format.IsDenormal bits) :
    signed? (words format bits) = some (format.value bits / 2) := by
  rw [(denotes_words finite).value, FloatFormat.written, if_pos denormal, FloatFormat.value]
  cases format.isNegative bits with
  | false => rfl
  | true => exact congrArg some (neg_div _ _).symm

end HexFloat
end Unmangle
