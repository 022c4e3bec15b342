import Unmangle.Proofs.Compression.Spelled
import Unmangle.Proofs.Engine.Text

/-!
# Texts that only a limit withholds

A text is given where there is room to look at the symbol, to read and to spell it, and to
hand out the text.
-/
namespace Unmangle.Engine

variable {room room' : Prop} {text symbol : String} {outcome : Except Fault String}
  {options : Options} {generation : UInt32}

/-- A limit withholds the text. -/
def Limited (outcome : Except Fault String) : Prop :=
  ∃ fault, outcome = .error fault ∧ fault.IsLimit

theorem Limited.isOk (limited : Limited outcome) : outcome.isOk = false := by
  obtain ⟨fault, rfl, -⟩ := limited
  rfl

/-- A text is given, or a limit withholds it and there is no room. -/
def Gives (room : Prop) (text : String) (outcome : Except Fault String) : Prop :=
  outcome = .ok text ∨ ¬room ∧ Limited outcome

namespace Gives

theorem eq (h : Gives room text outcome) (enough : room) : outcome = .ok text := by
  rcases h with given | ⟨full, -⟩
  · exact given
  · exact absurd enough full

/-- There may be room without it being known. -/
theorem weaken (h : Gives room text outcome) (enough : room' → room) : Gives room' text outcome :=
  h.imp id fun withheld => ⟨fun more => withheld.1 (enough more), withheld.2⟩

end Gives

/-- What is written on an empty canvas is handed out. -/
theorem gives_spelled {bytes : ByteArray} {tree : Tree} {root : NodeId}
    (written : Print.Writes room text
      (rendering ⟨options.maxRecursion, options.maxOutputLen⟩ bytes tree root) {}) :
    Gives (room ∧ text.utf8ByteSize ≤ options.maxOutputLen) text (spell options bytes tree root) := by
  unfold spell render
  obtain ⟨_, canvas, run, same⟩ | ⟨fault, canvas, run, full, limit⟩ := Granted.elim written
  · have out : canvas.out = text.toUTF8 := by
      rw [same]
      exact ByteArray.empty_append
    have size : text.toUTF8.size = text.utf8ByteSize := rfl
    rw [run]
    by_cases long : options.maxOutputLen < text.utf8ByteSize
    · refine .inr ⟨fun enough => absurd enough.2 (Nat.not_le.mpr long), .tooLong, ?_, .inr rfl⟩
      simp only [bind, Except.bind, out, size, if_pos long, throw, throwThe, MonadExceptOf.throw]
    · refine .inl ?_
      simp only [bind, Except.bind, out, size, if_neg long, Utf8.text_toUTF8]
      rfl
  · rw [run]
    exact .inr ⟨fun enough => full enough.1, fault, rfl, limit⟩

/-- What is written where it fits is handed out where there is room for it. -/
theorem gives_fitting {bytes : ByteArray} {tree : Tree} {root : NodeId} {need : Nat}
    (written : ∀ {room : Prop},
      (room → Canvas.Fits ⟨options.maxRecursion, options.maxOutputLen⟩ {} need text) →
        Print.Writes room text
          (rendering ⟨options.maxRecursion, options.maxOutputLen⟩ bytes tree root) {}) :
    Gives (need ≤ options.maxRecursion ∧ text.utf8ByteSize ≤ options.maxOutputLen) text
      (spell options bytes tree root) := by
  have fits (enough : need ≤ options.maxRecursion ∧ text.utf8ByteSize ≤ options.maxOutputLen) :
      Canvas.Fits ⟨options.maxRecursion, options.maxOutputLen⟩ {} need text :=
    ⟨(Nat.zero_add need).trans_le enough.1, (Nat.zero_add _).trans_le enough.2⟩
  exact (gives_spelled (written fits)).weaken fun enough => ⟨enough, enough.2⟩

/-- A symbol is too long to be looked at, or it is read and spelled. -/
theorem demangle_or_limited (options : Options) (generation : UInt32)
    (some : symbol.isEmpty = false) :
    (options.maxSymbolLen < symbol.utf8ByteSize ∧
      Limited ((resting options generation).demangle symbol).1) ∨
    (symbol.utf8ByteSize ≤ options.maxSymbolLen ∧
      ((resting options generation).demangle symbol).1 =
        ((resting options generation).parseAndSpell symbol.toUTF8).1) := by
  rw [demangle_eq_answer]
  unfold answer
  rw [some, if_neg (by decide)]
  by_cases long : options.maxSymbolLen < symbol.utf8ByteSize
  · rw [if_pos (show (resting options generation).options.maxSymbolLen < _ from long)]
    exact .inl ⟨long, .tooLong, rfl, .inr rfl⟩
  · rw [if_neg (show ¬(resting options generation).options.maxSymbolLen < _ from long)]
    exact .inr ⟨Nat.le_of_not_lt long, rfl⟩

/-- A symbol that is not too long to be looked at is read and spelled. -/
theorem gives_demangled (some : symbol.isEmpty = false)
    (given : symbol.utf8ByteSize ≤ options.maxSymbolLen →
      Gives room text ((resting options generation).parseAndSpell symbol.toUTF8).1) :
    Gives (symbol.utf8ByteSize ≤ options.maxSymbolLen ∧ room) text
      ((resting options generation).demangle symbol).1 := by
  obtain ⟨long, limited⟩ | ⟨fits, same⟩ := demangle_or_limited options generation some
  · exact .inr ⟨fun enough => absurd enough.1 (Nat.not_le.mpr long), limited⟩
  · rw [same]
    exact (given fits).weaken And.right

end Unmangle.Engine
