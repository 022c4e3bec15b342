import Unmangle.Proofs.Compression.Spelled
import Unmangle.Proofs.Compression.Whole
import Unmangle.Proofs.Engine.Given

/-!
# What a compressed symbol abbreviates

A symbol is demangled to the text of its function however its parameters are written. To
compress the symbol changes nothing but the room that it needs.
-/
namespace Unmangle

/-- A whole symbol is not empty. -/
theorem Signature.isEmpty_symbol (signature : Signature) (params : String) :
    (signature.symbol params).isEmpty = false := by
  rw [Bool.eq_false_iff]
  intro nothing
  have none : signature.symbol params = "" := String.isEmpty_iff.mp nothing
  rw [Signature.symbol, String.append_assoc] at none
  exact absurd (String.append_eq_empty_iff.mp none).1 (by decide)

/-- The limits leave room to look at a symbol, to read and spell its function, and to hand
out the text. -/
structure Options.Allow (options : Options) (signature : Signature) (symbol : String) : Prop where
  symbol : symbol.utf8ByteSize ≤ options.maxSymbolLen
  depth : signature.height < options.maxRecursion
  text : signature.text.utf8ByteSize ≤ options.maxOutputLen

namespace Engine

variable {options : Options} {signature : Signature} {symbol : String}

/-- A stored signature is spelled as its text, if the limits allow it. -/
theorem gives_spell (options : Options) {tree : Tree} {root : NodeId} {bytes : ByteArray}
    (stored : signature.Stored bytes tree root) :
    Gives (signature.height ≤ options.maxRecursion ∧
      signature.text.utf8ByteSize ≤ options.maxOutputLen) signature.text
      (spell options bytes tree root) := by
  have written : Print.Writes (signature.height ≤ options.maxRecursion ∧
      signature.text.utf8ByteSize ≤ options.maxOutputLen) signature.text
      (rendering ⟨options.maxRecursion, options.maxOutputLen⟩ bytes tree root) {} := by
    apply stored.spell
    intro enough
    constructor
    · show 0 + signature.height ≤ options.maxRecursion
      omega
    · show 0 + signature.text.utf8ByteSize ≤ options.maxOutputLen
      omega
  exact (gives_spelled written).weaken fun enough => ⟨enough, enough.2⟩

/-- Either spelling of a signature demangles to its text, if the limits allow it. -/
theorem gives_demangle (bounded : options.maxSymbolLen < Number.bound) (generation : UInt32)
    (written : signature.WrittenAs symbol) :
    Gives (options.Allow signature symbol) signature.text
      ((resting options generation).demangle symbol).1 := by
  have some : symbol.isEmpty = false := by
    obtain ⟨params, listed, -, rfl⟩ := written
    exact signature.isEmpty_symbol params
  refine Gives.weaken (gives_demangled some fun fits => ?_) fun enough => ⟨enough.symbol, enough⟩
  rw [parseAndSpell_resting]
  have small : symbol.utf8ByteSize < Number.bound := by omega
  have parsed := Parse.Grants.wholeSymbol options.maxRecursion written small generation
  obtain ⟨root, state, run, stored⟩ | ⟨fault, state, run, full, limit⟩ := Granted.elim parsed
  · rw [run]
    exact (gives_spell options stored).weaken fun enough =>
      ⟨Nat.le_of_lt enough.depth, enough.text⟩
  · rw [run]
    exact .inr ⟨fun enough => full enough.depth, fault, rfl, limit⟩

/-- A symbol in compressed form is demangled to what the symbol written out in full is
demangled to: the text of the function. Where there is no room, a limit withholds it. -/
theorem demangle_compressed (options : Options) (bounded : options.maxSymbolLen < Number.bound)
    (generation : UInt32) (signature : Signature) :
    let demangled (symbol : String) := ((resting options generation).demangle symbol).1
    Gives (options.Allow signature signature.plain) signature.text (demangled signature.plain) ∧
      Gives (options.Allow signature signature.compressed) signature.text
        (demangled signature.compressed) ∧
      (options.Allow signature signature.plain → options.Allow signature signature.compressed →
        demangled signature.compressed = demangled signature.plain) := by
  intro demangled
  have plain := gives_demangle bounded generation signature.plain_written
  have compressed := gives_demangle bounded generation signature.compressed_written
  refine ⟨plain, compressed, fun room room' => ?_⟩
  exact (compressed.eq room').trans (plain.eq room).symm

/-- A class inside another, the same class again, and a pointer to it. -/
def recurring : Signature where
  name := ⟨"f", by decide +kernel⟩
  params :=
    let inner : Component :=
      .named (.inside (.top ⟨"A", by decide +kernel⟩) ⟨"B", by decide +kernel⟩)
    [inner, inner, .pointer (.qualified ⟨true, false, false⟩ inner)]
  wellFormed := by simp [Component.WellFormed, Component.isQualified, Qualifiers.isEmpty]
  first := by decide

/-- The class is listed behind its scope, so it is the second on the list. -/
theorem demangle_recurring :
    ({} : Options).maxSymbolLen < Number.bound ∧
      recurring.plain = "_Z1fN1A1BEN1A1BEPKN1A1BE" ∧
      recurring.compressed = "_Z1fN1A1BES0_PKS0_" ∧
      ((resting {} 0).demangle "_Z1fN1A1BES0_PKS0_").1 = .ok "f(A::B, A::B, A::B const*)" ∧
      ((resting {} 0).demangle "_Z1fN1A1BES0_PKS0_").1 =
        ((resting {} 0).demangle "_Z1fN1A1BEN1A1BEPKN1A1BE").1 := by
  have bounded : ({} : Options).maxSymbolLen < Number.bound := by decide
  have plain : recurring.plain = "_Z1fN1A1BEN1A1BEPKN1A1BE" := by decide +kernel
  have compressed : recurring.compressed = "_Z1fN1A1BES0_PKS0_" := by decide +kernel
  have text : recurring.text = "f(A::B, A::B, A::B const*)" := by decide +kernel
  obtain ⟨-, given, same⟩ := demangle_compressed {} bounded 0 recurring
  rw [plain, compressed] at same
  rw [compressed, text] at given
  have room : Options.Allow {} recurring "_Z1fN1A1BES0_PKS0_" := by
    constructor <;> decide +kernel
  have room' : Options.Allow {} recurring "_Z1fN1A1BEN1A1BEPKN1A1BE" := by
    constructor <;> decide +kernel
  exact ⟨bounded, plain, compressed, given.eq room, same room' room⟩

end Engine
end Unmangle
