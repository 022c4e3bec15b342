import Mathlib.Data.Nat.Digits.Lemmas
import Unmangle.Proofs.Declarator.Bare
import Unmangle.Proofs.Literal.Value

/-!
# Literals as they are printed

A floating-point literal is read as the hex digits of a bit pattern, and spelled as a constant of
the C language. The constant denotes the number that the pattern encodes, unless the pattern has
eighty bits, the power zero and a significand that is not.
-/
namespace Unmangle

def HexFloat.pattern (digits : List UInt8) : Nat :=
  Nat.ofDigits 16 (digits.reverse.map fun digit => (digitValue? digit).getD 0)

namespace HexFloat

variable {format : FloatFormat} {digits : List UInt8}

theorem pattern_cons (digit : UInt8) (digits : List UInt8) :
    pattern (digit :: digits) = pattern digits + 16 ^ digits.length * (digitValue? digit).getD 0 := by
  unfold pattern
  rw [List.reverse_cons, List.map_append, Nat.ofDigits_append, List.length_map, List.length_reverse,
    List.map_singleton, Nat.ofDigits_singleton]

theorem foldlM_pattern (hex : digits.all Parse.isHexDigit = true) (start : Nat) :
    digits.foldlM (fun value digit => return value * 16 + (← digitValue? digit)) start =
      some (start * 16 ^ digits.length + pattern digits) := by
  induction digits generalizing start with
  | nil => rw [List.length_nil, pow_zero, mul_one]; rfl
  | cons digit digits ih =>
    rw [List.all_cons, Bool.and_eq_true] at hex
    obtain ⟨value, -, known⟩ := digitValue?_of_isHexDigit hex.1
    have rest := ih hex.2 (start * 16 + value)
    rw [List.foldlM_cons, known]
    refine rest.trans (congrArg some ?_)
    rw [pattern_cons, known, Option.getD_some, List.length_cons]
    ring

/-- As many digits as a format has are spelled as the pattern that they write. -/
theorem spelling?_eq (length : digits.length = format.digits)
    (hex : digits.all Parse.isHexDigit = true) :
    spelling? format digits =
      some (String.ofList (words format (pattern digits) ++ format.suffix)) := by
  obtain ⟨spelled, known⟩ := Option.isSome_iff_exists.mp (isSome_spelling? length hex)
  have folded := foldlM_pattern hex 0
  rw [zero_mul, zero_add] at folded
  rw [known]
  unfold spelling? pattern? at known
  rw [folded] at known
  simp only [bind, Option.bind] at known
  split at known
  · cases known
  · rename_i bits found
    split at found
    · cases found
    · cases found
      rw [← Option.some.inj known]
      cases format with
      | single => rfl
      | double => exact congrArg (some ∘ String.ofList) (List.append_nil _).symm
      | extended => rfl

end HexFloat

namespace Parse.Meets

variable {symbol : ByteArray} {base s : ParseState} {rest digits : List UInt8} {code : Char}
  {format : FloatFormat}

/-- The hex digits of a literal and its end are read as a pattern. -/
theorem floatLiteral (length : digits.length = format.digits)
    (hex : digits.all Parse.isHexDigit = true) (h : Poised symbol base (digits ++ (octets "E" ++ rest)) s) :
    Meets True none (Parse.floatLiteral format) s (Found symbol base rest fun tree id =>
      ∃ bits, tree.get? id = some (.float format bits) ∧
        (bits.resolve symbol).data.toList = digits) := by
  have taken : s.cursor.take? format.digits =
      some ⟨s.cursor.offset + digits.length, octets "E" ++ rest⟩ := by
    rw [Cursor.take?_eq_some_iff, h.ahead, ← length, List.drop_left]
    refine ⟨?_, rfl⟩
    rw [List.length_append]
    exact Nat.le_add_right _ _
  have all : (s.cursor.rest.take format.digits).all isHexDigit = true := by
    rwa [h.ahead, ← length, List.take_left]
  have resolved := Parse.Grants.resolve_span h.behind
  refine after run_get (after (a := ⟨s.cursor.offset + digits.length, octets "E" ++ rest⟩) (t := s) ?_ ?_)
  · rw [taken]
    rfl
  · rw [all, ensure_true]
    refine after (run_pure ()) (after (run_modify _) ?_)
    refine expected (octets "E") rfl (by decide) (h.passed digits) ?_
    intro t ht
    refine made _ ht ?_
    intro id u hu _ held _
    refine ⟨hu, _, held, ?_⟩
    rw [resolved]

/-- A floating-point literal is read behind the code of its type. -/
theorem literal (call : Calls) (known : FloatFormat.ofCode? code = some format)
    (length : digits.length = format.digits) (hex : digits.all Parse.isHexDigit = true)
    (h : Poised symbol base (octets "L" ++
      ([UInt8.ofNat code.toNat] ++ (digits ++ (octets "E" ++ rest)))) s) :
    Meets True none (Parse.literal call) s (Found symbol base rest fun tree id =>
      ∃ bits, tree.get? id = some (.float format bits) ∧
        (bits.resolve symbol).data.toList = digits) := by
  refine expected (octets "L") rfl (by decide) h ?_
  intro t ht
  refine peekedPair ht ?_
  unfold FloatFormat.ofCode? at known
  -- each code is none of the characters that are looked for before it
  split at known
  all_goals first | (cases known; done) | obtain rfl := Option.some.inj known
  all_goals exact advanced [_] ht fun u hu => floatLiteral length hex hu

end Parse.Meets

namespace Speller

variable {speller : Speller} {id : NodeId} {format : FloatFormat} {bits : Text} {digits : List UInt8}

/-- All of a floating-point literal stands in its left half. -/
theorem side_float (held : speller.tree.get? id = some (.float format bits))
    (resolved : (bits.resolve speller.symbol).data.toList = digits)
    (length : digits.length = format.digits) (hex : digits.all Parse.isHexDigit = true)
    (canvas : Canvas) :
    (speller.side .left id).run canvas = .ok () { canvas with
        out := canvas.out ++ (String.ofList
          (HexFloat.words format (HexFloat.pattern digits) ++ format.suffix)).toUTF8 } ∧
      (speller.side .right id).run canvas = .ok () canvas := by
  have node : speller.tree.node id = .float format bits := by
    rw [Tree.node, held]
    rfl
  have looked : (Print.bytes speller.symbol bits).run canvas =
      .ok (bits.resolve speller.symbol) canvas := rfl
  constructor
  · show ((speller.left (speller.tree.node id)).run canvas) = _
    simp only [node, Speller.left, Speller.float, Bind.bind, looked, resolved,
      HexFloat.spelling?_eq length hex]
    rfl
  · show ((speller.right (speller.tree.node id)).run canvas) = _
    rw [node]
    rfl

end Speller

/-- A literal whose power is not the last one is read, and then printed with a minus sign just
where its pattern has the sign bit. What is printed denotes the number that the pattern encodes,
unless the pattern has eighty bits, the power zero and a significand that is not: then it denotes
half of it. -/
theorem Parse.literal_denotes_value_iff {symbol : ByteArray} {s : ParseState}
    {rest digits : List UInt8} {code : Char} {format : FloatFormat} (call : Calls)
    (known : FloatFormat.ofCode? code = some format) (length : digits.length = format.digits)
    (hex : digits.all isHexDigit = true)
    (finite : format.power (HexFloat.pattern digits) ≠ format.lastPower)
    (ahead : Poised symbol s (octets "L" ++
      ([UInt8.ofNat code.toNat] ++ (digits ++ (octets "E" ++ rest)))) s) :
    ∃ id t words, (Parse.literal call).run s = .ok id t ∧ t.cursor.rest = rest ∧
      (∀ half canvas,
        (Speller.side ⟨symbol, t.work.tree, half⟩ .left id).run canvas = .ok () { canvas with
          out := canvas.out ++ (String.ofList (words ++ format.suffix)).toUTF8 } ∧
        (Speller.side ⟨symbol, t.work.tree, half⟩ .right id).run canvas = .ok () canvas) ∧
      (words.head? = some '-' ↔ format.isNegative (HexFloat.pattern digits) = true) ∧
      (HexFloat.signed? words = some (format.value (HexFloat.pattern digits)) ↔
        ¬format.IsDenormal (HexFloat.pattern digits)) ∧
      (format.IsDenormal (HexFloat.pattern digits) →
        HexFloat.signed? words = some (format.value (HexFloat.pattern digits) / 2)) := by
  have read := Meets.literal call known length hex ahead
  unfold Meets at read
  cases run : (Parse.literal call).run s with
  | error fault t =>
    rw [run] at read
    cases read with
    | refused due => cases due
    | withheld full limit => exact absurd trivial full
  | ok id t =>
    rw [run] at read
    cases read with
    | given none holds =>
      obtain ⟨ht, bits, held, resolved⟩ := holds
      refine ⟨id, t, HexFloat.words format (HexFloat.pattern digits), rfl, ht.ahead, ?_,
        (HexFloat.denotes_words finite).sign, HexFloat.denotes_value_iff finite,
        HexFloat.denotes_half finite⟩
      intro half canvas
      exact @Speller.side_float ⟨symbol, t.work.tree, half⟩ _ _ _ _ held resolved length hex canvas

/-- The digits of the least pattern of eighty bits that is not zero. -/
theorem HexFloat.pattern_least : pattern (octets "00000000000000000001") = 1 := by
  have digits : octets "00000000000000000001" = List.replicate 19 48 ++ [49] := by decide
  have values : (octets "00000000000000000001").reverse.map (fun digit => (digitValue? digit).getD 0) =
      1 :: List.replicate 19 0 := by
    rw [digits]
    decide
  rw [pattern, values]
  norm_num [Nat.ofDigits_cons]

theorem Parse.literal_denotes_least :
    ∃ id t words, (Parse.literal (fun _ => unexpected)).run
        (.start 0 "Le00000000000000000001E".toUTF8) = .ok id t ∧
      HexFloat.signed? words = some (FloatFormat.extended.value 1 / 2) := by
  have least := HexFloat.pattern_least
  have known : FloatFormat.ofCode? 'e' = some .extended := rfl
  have ahead : Poised "Le00000000000000000001E".toUTF8 (.start 0 "Le00000000000000000001E".toUTF8)
      (octets "L" ++ ([UInt8.ofNat 'e'.toNat] ++ (octets "00000000000000000001" ++ (octets "E" ++ []))))
      (.start 0 "Le00000000000000000001E".toUTF8) := poised_start 0 (by decide)
  obtain ⟨id, t, words, run, -, -, -, -, half⟩ :=
    Parse.literal_denotes_value_iff (fun _ => unexpected) known (by decide) (by decide)
      (by rw [least]; decide) ahead
  rw [least] at half
  exact ⟨id, t, words, run, half (by decide)⟩

/-- The least literal of eighty bits is printed with a power that makes it half of what its
pattern encodes. -/
theorem Engine.demangle_least_literal :
    (Engine.demangle {} "_Z1fILe00000000000000000001EEvv").1.toOption =
        some "void f<0x0.000000000000001p-16386L>()" ∧
      HexFloat.signed? "0x0.000000000000001p-16386".toList ≠
        some (FloatFormat.extended.value (HexFloat.pattern (octets "00000000000000000001"))) := by
  have least : HexFloat.words .extended 1 = "0x0.000000000000001p-16386".toList := by decide
  refine ⟨by decide +kernel, ?_⟩
  rw [HexFloat.pattern_least, ← least]
  intro exact
  exact (HexFloat.denotes_value_iff (by decide)).mp exact (by decide)

end Unmangle
