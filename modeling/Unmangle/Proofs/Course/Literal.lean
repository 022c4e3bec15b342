import Unmangle.Grammar.Literal
import Unmangle.Proofs.Course.Name

/-!
# Literals on course

The digits of a floating-point literal are counted by its format, so they always write a
pattern of that many bits.
-/
namespace Unmangle

theorem Parse.ascii_of_isHexDigit {byte : UInt8} (h : isHexDigit byte = true) : Ascii byte := by
  simp only [isHexDigit, Bool.or_eq_true, Bool.and_eq_true, decide_eq_true_eq] at h
  obtain h | h := h
  · exact Number.ascii_of_isDigit h
  · exact Nat.lt_of_le_of_lt (UInt8.le_iff_toNat_le.mp h.2) (by decide)

theorem Builtin.letter_of_literalType? {char : Char} {type : Builtin.LiteralType}
    (found : Builtin.literalType? char = some type) : Letter char := by
  unfold Builtin.literalType? at found
  split at found <;> first | decide | cases found

theorem FloatFormat.letter_of_ofCode? {char : Char} {format : FloatFormat}
    (found : FloatFormat.ofCode? char = some format) : Letter char := by
  unfold FloatFormat.ofCode? at found
  split at found <;> first | decide | cases found

namespace HexFloat

theorem digitValue?_of_isHexDigit {byte : UInt8} (h : Parse.isHexDigit byte = true) :
    ∃ value < 16, digitValue? byte = some value := by
  have all : ∀ n < 256, Parse.isHexDigit (.ofNat n) = true →
      ∃ value < 16, digitValue? (.ofNat n) = some value := by decide +kernel
  have known := all byte.toNat byte.toNat_lt
  rw [UInt8.ofNat_toNat] at known
  exact known h

/-- Each digit makes room for four bits more. -/
theorem foldlM_digits {digits : List UInt8} (hex : digits.all Parse.isHexDigit = true)
    {start bound : Nat} (lt : start < bound) :
    ∃ value < bound <<< (4 * digits.length),
      digits.foldlM (fun value digit => return value * 16 + (← digitValue? digit)) start =
        some value := by
  induction digits generalizing start bound with
  | nil => exact ⟨start, lt, rfl⟩
  | cons digit digits ih =>
    rw [List.all_cons, Bool.and_eq_true] at hex
    obtain ⟨value, small, hvalue⟩ := digitValue?_of_isHexDigit hex.1
    have next : start * 16 + value < bound <<< 4 := by
      rw [Nat.shiftLeft_eq]
      omega
    obtain ⟨total, below, htotal⟩ := ih hex.2 next
    refine ⟨total, ?_, ?_⟩
    · rwa [List.length_cons, Nat.mul_succ, Nat.add_comm, Nat.shiftLeft_add]
    · rw [List.foldlM_cons, hvalue]
      exact htotal

/-- As many hex digits as a format has are a pattern of it. -/
theorem isSome_spelling? {format : FloatFormat} {digits : List UInt8}
    (length : digits.length = format.digits) (hex : digits.all Parse.isHexDigit = true) :
    (spelling? format digits).isSome := by
  obtain ⟨value, below, hvalue⟩ := foldlM_digits hex Nat.one_pos
  rw [length] at below
  have some : digits.isEmpty = false := by
    cases digits with
    | nil => cases format <;> cases length
    | cons digit digits => rfl
  have pattern : pattern? (4 * format.digits) digits = Option.some value := by
    rw [pattern?, hvalue]
    simp [some, Nat.not_le.mpr below]
  rw [spelling?, pattern]
  rfl

end HexFloat

namespace OnCourse

variable {symbol : ByteArray} {call : Calls} {s : ParseState}

theorem literalNumber : Leads symbol Parse.literalNumber s fun words t =>
    words.Whole symbol t.cursor.offset := by
  apply (Leads.number true).bind
  intro words t ground _ known
  apply Leads.ensure_bind .unexpected
  intro _
  apply ((expect (by decide)) t).bind
  intro _ u _ course _
  exact .pure (course.text ground known.1)

/-- The digits of a literal are as many as its format has. -/
theorem floatLiteral (format : FloatFormat) : OnCourse symbol (Parse.floatLiteral format) := by
  intro s ground
  refine Leads.get_bind (.orFault_bind fun behind hbehind => .ensure_bind (.throw _) fun hex => ?_)
    ground
  obtain ⟨fits, rfl⟩ := (Cursor.take?_eq_some_iff _ _ _).mp hbehind
  have ascii : ∀ byte ∈ s.cursor.rest.take format.digits, Ascii byte := fun byte hbyte =>
    Parse.ascii_of_isHexDigit (List.all_eq_true.mp hex byte hbyte)
  have pos : 0 < format.digits := by cases format <;> decide
  have spelled : Text.Spelled symbol format
      (.span s.cursor.offset (s.cursor.offset + format.digits)) := by
    have same : (symbol.extract s.cursor.offset (s.cursor.offset + format.digits)).data.toList =
        s.cursor.rest.take format.digits := by
      rw [toList_extract, ground.rest]
    refine HexFloat.isSome_spelling? ?_ ?_
    · rw [Text.resolve, same, List.length_take, Nat.min_eq_left fits]
    · rwa [Text.resolve, same]
  refine Leads.next (Q := fun _ _ => True) (.modified (.one (.read _ fits ascii)) trivial) ?_
  intro _
  apply (expect (by decide)).bind
  intro _ t
  refine .make ⟨?_, ?_⟩ nofun
  · intro words hwords
    obtain rfl := List.mem_singleton.mp hwords
    exact ground.whole_span pos fits ascii _
  · rintro _ _ ⟨⟩
    exact spelled

theorem encodingBetween {call : Calls} (calls : ∀ rule, OnCourse symbol (call rule))
    {token : String} (ascii : AsciiToken token) :
    OnCourse symbol (do
      Parse.expect token
      let encoding ← call .encoding
      Parse.expect "E"
      return encoding) := by
  apply (expect ascii).seq
  apply (calls .encoding).bind
  intro encoding
  apply (expect (by decide)).seq
  exact pure encoding

variable (calls : ∀ rule, OnCourse symbol (call rule))
include calls

theorem enumerator : OnCourse symbol (Parse.enumerator call) := by
  apply (calls .type).bind
  intro type s
  apply literalNumber.bind
  intro words t _ _ whole
  exact .make_text whole rfl nofun

theorem literal : OnCourse symbol (Parse.literal call) := by
  apply (expect (by decide)).bind
  intro _ s
  refine .peekPair_bind ?_
  intro first second look look'
  dsimp only
  split
  · rename_i type found
    apply (Leads.advance_one look (Builtin.letter_of_literalType? found)).bind
    intro _ t _ _ _
    apply literalNumber.bind
    intro words u _ _ whole
    exact .make_text whole rfl nofun
  · split
    · apply (accept (by decide) s).next
      intro held
      refine ite (make rfl nofun) ?_
      apply (accept (by decide)).bind
      intro held
      exact ite (make rfl nofun) unexpected
    · exact encodingBetween calls (by decide) s
    · apply (calls .type s).next
      intro type
      apply (expect (by decide)).seq
      exact make rfl nofun
    · apply (accept (by decide) s).next
      intro held
      refine ite (makeName _) ?_
      apply (accept (by decide)).bind
      intro held
      exact ite (makeName _) (enumerator calls)
    · exact .throw _
    · split
      · rename_i format found
        apply (Leads.advance_one look (FloatFormat.letter_of_ofCode? found)).next
        intro _
        exact floatLiteral format
      · refine ite ?_ (enumerator calls) s
        apply (unnamedTypeName calls).bind
        intro type
        apply (expect (by decide)).seq
        exact make rfl nofun

end OnCourse
end Unmangle
