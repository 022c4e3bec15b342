import Unmangle.Proofs.Output.Script
import Unmangle.Spelling.HexFloat

/-!
# Constants among other text

The spelling of a floating-point literal has neither brackets nor underscores in it.
-/
namespace Unmangle

def Unmarked (text : List Char) : Prop :=
  ∀ char ∈ text, char ∉ '_' :: Bracket.marks

instance (text : List Char) : Decidable (Unmarked text) :=
  List.decidableBAll _ text

theorem Unmarked.append {text text' : List Char} (h : Unmarked text) (h' : Unmarked text') :
    Unmarked (text ++ text') := by
  intro char mem
  exact (List.mem_append.mp mem).elim (h char) (h' char)

theorem Unmarked.cons {char : Char} {text : List Char} (first : char ∉ '_' :: Bracket.marks)
    (rest : Unmarked text) : Unmarked (char :: text) :=
  List.forall_mem_cons.mpr ⟨first, rest⟩

theorem Plain.of_unmarked {text : List Char} (unmarked : Unmarked text) :
    Plain (String.ofList text) := by
  constructor
  · rw [String.toList_ofList]
    exact Bracket.scan_of_forall fun char mem mark => unmarked char mem (.tail _ mark)
  · rw [String.toList_ofList]
    cases text with
    | nil => exact .nil
    | cons char text => exact .of_head (List.ne_of_not_mem_cons (unmarked char (.head _))) text

theorem not_mem_of_isDigit {char : Char} (digit : char.isDigit = true) :
    char ∉ '_' :: Bracket.marks := by
  intro mem
  have none : ∀ mark ∈ '_' :: Bracket.marks, mark.isDigit = false := by decide
  rw [none char mem] at digit
  cases digit

namespace HexFloat

theorem hexDigit_not_mem {value : Nat} (small : value < 16) :
    hexDigit value ∉ '_' :: Bracket.marks := by
  have all : ∀ value : Fin 16, hexDigit value ∉ '_' :: Bracket.marks := by decide
  exact all ⟨value, small⟩

theorem unmarked_hexDigits (number count : Nat) : Unmarked (hexDigits number count) := by
  induction count generalizing number with
  | zero => exact nofun
  | succ count ih =>
    exact (ih _).append (.cons (hexDigit_not_mem (Nat.mod_lt _ (by decide))) nofun)

theorem unmarked_fraction (number count : Nat) : Unmarked (fraction number count) := by
  intro char mem
  rw [fraction, List.mem_reverse] at mem
  have inside := (List.dropWhile_sublist _).subset mem
  exact unmarked_hexDigits number count char (List.mem_reverse.mp inside)

theorem unmarked_pointed (number count : Nat) : Unmarked (pointed number count) := by
  unfold pointed
  split
  · exact nofun
  · exact .cons (by decide) (unmarked_fraction number count)

theorem unmarked_exponent (power : Int) : Unmarked (exponent power) := by
  refine .cons (by split <;> decide) fun char mem => ?_
  rw [Nat.toList_repr] at mem
  exact not_mem_of_isDigit (Nat.isDigit_of_mem_toDigits (by decide) (by decide) mem)

theorem unmarked_sign (isNegative : Bool) : Unmarked (sign isNegative) := by
  cases isNegative <;> decide

/-- The digits of a `double` contain no bracket. -/
theorem unmarked_double (bits : Nat) : Unmarked (double bits) := by
  refine (unmarked_sign _).append ?_
  split
  · split <;> decide
  · split
    · split
      · decide
      · exact Unmarked.append (.append (by decide) (unmarked_fraction _ _)) (by decide)
    · refine Unmarked.append (.append (by decide) (unmarked_pointed _ _)) ?_
      exact .cons (by decide) (unmarked_exponent _)

theorem field_lt (pattern low width : Nat) : field pattern low width < 1 <<< width :=
  Nat.mod_lt _ (by rw [Nat.shiftLeft_eq, Nat.one_mul]; exact Nat.two_pow_pos width)

/-- The digits of a `long double` contain no bracket. -/
theorem unmarked_extended (bits : Nat) : Unmarked (extended bits) := by
  refine (unmarked_sign _).append ?_
  split
  · split <;> decide
  · split
    · decide
    · refine Unmarked.append (.append (by decide) (.cons ?_ (unmarked_pointed _ _))) ?_
      · exact hexDigit_not_mem (field_lt _ _ 4)
      · exact .cons (by decide) (unmarked_exponent _)

/-- No spelling of a literal contains a bracket. -/
theorem plain_spelling {format : FloatFormat} {digits : List UInt8} {words : String}
    (spelled : spelling? format digits = some words) : Plain words := by
  obtain ⟨bits, -, rest⟩ := Option.bind_eq_some_iff.mp spelled
  cases rest
  refine .of_unmarked ?_
  cases format with
  | single => exact (unmarked_double _).append (by decide)
  | double => exact unmarked_double _
  | extended => exact (unmarked_extended _).append (by decide)

end HexFloat
end Unmangle
