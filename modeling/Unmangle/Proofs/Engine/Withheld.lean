import Unmangle.Proofs.Comparison.Alone
import Unmangle.Proofs.Comparison.Rule
import Unmangle.Proofs.Engine.History
import Unmangle.Proofs.Limits
import Unmangle.Proofs.Spelling.Alone

/-!
# Limits only withhold an answer

A symbol is read and spelled under two sets of limits, one of them wider. Both runs go
side by side up to the point where the narrower limits end the first of them, and nothing
but an end is ever made of a limit.
-/
namespace Unmangle

/-- No limit is lower in the other options. -/
structure Options.Within (options options' : Options) : Prop where
  recursion : options.maxRecursion ≤ options'.maxRecursion
  symbol : options.maxSymbolLen ≤ options'.maxSymbolLen
  output : options.maxOutputLen ≤ options'.maxOutputLen

/-- Nothing is kept up, so there is one world. -/
@[reducible]
def oneWorld : Preorder Unit where
  le _ _ := True
  lt _ _ := False
  lt_iff_le_not_ge _ _ := ⟨nofun, fun h => absurd trivial h.2⟩
  le_refl _ := trivial
  le_trans _ _ _ _ _ := trivial

/-- A parse beside itself, given up where productions nest too deep. -/
def patience : Comparison :=
  @Comparison.alone Unit oneWorld (fun _ _ => True) (fun _ => True) (fun _ => False)
    (· = .tooMuchRecursion)

namespace patience

/-- Nothing is asked of what happens, so any rule may be read. -/
theorem mayRead (rule : Rule) : patience.MayRead rule := by
  intro s s' a b t t' _ _
  trivial

theorem lawful : patience.Lawful :=
  Comparison.alone.lawful (fun _ _ => trivial) (fun _ _ => trivial) (fun _ => trivial)
    (fun _ _ => trivial) (fun _ => mayRead _) fun _ _ => trivial

theorem pops : patience.Pops where
  pop? := by
    rintro w u _ ⟨rfl, -⟩
    exact rel_refl (fun _ => ⟨rfl, trivial⟩) _
  reads _ := mayRead _

/-- A wider limit does not change what is read. -/
theorem parse_eq {limit limit' : Nat} (wider : limit ≤ limit') (rule : Rule) (s : ParseState) :
    (Rule.parse limit limit rule).run s = (Rule.parse limit' limit' rule).run s ∨
      ∃ t, (Rule.parse limit limit rule).run s = .error .tooMuchRecursion t := by
  have limits : patience.Limits limit limit' := ⟨wider, .inl rfl⟩
  have reads := lawful.reads_parse (Comparison.NestedNames.of_pops lawful pops) limits limits
  have outcome := (reads rule () s s (Comparison.alone.state_self trivial)
    fun _ _ lost => lost.elim).2
  rcases outcome.elim with ⟨_, a, b, t, t', hr, hr', -, same, -, name⟩ |
    ⟨_, fault, t, t', hr, hr', -, same, -⟩ | ⟨fault, t, hr, gone⟩
  · obtain rfl : a = b := name
    obtain ⟨rfl, -⟩ := Comparison.alone.state_iff.mp same
    exact .inl (hr.trans hr'.symm)
  · obtain ⟨rfl, -⟩ := Comparison.alone.state_iff.mp same
    exact .inl (hr.trans hr'.symm)
  · obtain rfl : fault = .tooMuchRecursion := gone
    exact .inr ⟨t, hr⟩

end patience

/-- Nothing is asked of a tree that is given up at a limit. -/
def Terms.patient (symbol : ByteArray) : Terms symbol where
  text _ := True
  bits _ _ := True
  target _ := True
  fault _ := True
  withheld := Fault.IsLimit
  growth := .any
  words _ := trivial
  text_of_bits _ := trivial
  written _ _ := trivial
  digits _ _ _ := trivial
  waits _ := trivial
  float _ _ := trivial
  tooLong := trivial
  tooMuchRecursion := trivial

/-- Wider limits do not change what a tree is spelled as. -/
theorem render_eq {limits limits' : SpellingLimits} (depth : limits.maxDepth ≤ limits'.maxDepth)
    (length : limits.maxLength ≤ limits'.maxLength) (symbol : ByteArray) (tree : Tree)
    (root : NodeId) :
    render limits symbol tree root = render limits' symbol tree root ∨
      ∃ fault, render limits symbol tree root = .error fault ∧ fault.IsLimit := by
  have law : ((Terms.patient symbol).mirror tree).Lawful := Terms.lawful fun _ =>
    ⟨fun _ _ => trivial, fun _ _ _ => trivial, fun _ _ _ => trivial⟩
  exact law.render rfl ⟨depth, length, .inl ⟨.inr rfl, .inl rfl⟩⟩ (rfl : root = root)

namespace Engine

variable {options options' : Options}

/-- A call gave what the other gives, or a limit withheld it. -/
def Withholds {α : Type} (outcome outcome' : Except Fault α) : Prop :=
  outcome = outcome' ∨ ∃ fault, outcome = .error fault ∧ fault.IsLimit

/-- Stricter limits give the same spelling or withhold it. -/
theorem withholds_spell (within : options.Within options') (symbol : ByteArray) (tree : Tree)
    (root : NodeId) :
    Withholds (spell options symbol tree root) (spell options' symbol tree root) := by
  have output := within.output
  have rendered : render ⟨options.maxRecursion, options.maxOutputLen⟩ symbol tree root =
      render ⟨options'.maxRecursion, options'.maxOutputLen⟩ symbol tree root ∨
      ∃ fault, render ⟨options.maxRecursion, options.maxOutputLen⟩ symbol tree root =
        .error fault ∧ fault.IsLimit :=
    render_eq within.recursion output symbol tree root
  unfold spell
  rcases rendered with same | ⟨fault, failed, limit⟩
  · rw [← same]
    cases render ⟨options.maxRecursion, options.maxOutputLen⟩ symbol tree root with
    | error fault => exact .inl rfl
    | ok out =>
      by_cases long : options.maxOutputLen < out.size
      · refine .inr ⟨.tooLong, ?_, .inr rfl⟩
        simp only [bind, Except.bind, if_pos long, throw, throwThe, MonadExceptOf.throw]
      · refine .inl ?_
        have long' : ¬options'.maxOutputLen < out.size := by omega
        simp only [bind, Except.bind, if_neg long, if_neg long']
  · rw [failed]
    exact .inr ⟨fault, rfl, limit⟩

/-- Stricter limits on a parse and its spelling give the same text or withhold it. -/
theorem withholds_parseAndSpell (within : options.Within options') (generation : UInt32)
    (symbol : ByteArray) :
    Withholds ((resting options generation).parseAndSpell symbol).1
      ((resting options' generation).parseAndSpell symbol).1 := by
  rw [parseAndSpell_resting, parseAndSpell_resting]
  rcases patience.parse_eq within.recursion .symbol (.start generation symbol) with
    same | ⟨t, failed⟩
  · rw [← same]
    cases (Rule.parse options.maxRecursion options.maxRecursion .symbol).run
      (.start generation symbol) with
    | ok root state => exact withholds_spell within symbol state.work.tree root
    | error fault state => exact .inl rfl
  · rw [failed]
    exact .inr ⟨.tooMuchRecursion, rfl, .inl rfl⟩

/-- Stricter limits give the same answer or withhold it. -/
theorem withholds_answer (within : options.Within options') (name : String) (slots : Slots) :
    Withholds ((resting options 0).answer name slots).1 ((resting options' 0).answer name slots).1 := by
  have symbol := within.symbol
  unfold answer
  by_cases call : (name.isEmpty || (slots.buffer.isSome && slots.length.isNone)) = true
  · rw [if_pos call, if_pos call]
    exact .inl rfl
  · rw [if_neg call, if_neg call]
    by_cases long : options.maxSymbolLen < name.utf8ByteSize
    · refine .inr ⟨.tooLong, ?_, .inr rfl⟩
      exact congrArg Prod.fst (if_pos long)
    · have long' : ¬options'.maxSymbolLen < name.utf8ByteSize := by omega
      have first := withholds_parseAndSpell within 0 name.toUTF8
      rw [if_neg (show ¬(resting options 0).options.maxSymbolLen < name.utf8ByteSize from long),
        if_neg (show ¬(resting options' 0).options.maxSymbolLen < name.utf8ByteSize from long')]
      exact first

/-- What a symbol is demangled to is what it was answered with. -/
theorem demangle_eq_answer (engine : Engine) (name : String) :
    (engine.demangle name).1 = (engine.answer name ⟨some "", some 0⟩).1 := by
  unfold demangle demangleTo
  rcases engine.answer name ⟨some "", some 0⟩ with ⟨fault | text, after⟩
  · rfl
  · rfl

/-- What is not withheld by limits stays what it is under wider ones. -/
theorem demangle_eq_of_within (within : options.Within options') (name : String)
    (given : ∀ fault, (Engine.demangle { options := options } name).1 = .error fault →
      ¬fault.IsLimit) :
    (Engine.demangle { options := options' } name).1 =
      (Engine.demangle { options := options } name).1 := by
  have either := withholds_answer within name ⟨some "", some 0⟩
  rw [← demangle_eq_answer, ← demangle_eq_answer] at either
  rcases either with same | ⟨fault, failed, limit⟩
  · exact same.symm
  · exact absurd limit (given fault failed)

/-- Six bytes are enough for a form of six bytes, and any more give the same form. -/
theorem demangle_within_default :
    (Engine.demangle { options := ⟨16, 5, 6, false⟩ } "_Z1fi").1.toOption = some "f(int)" ∧
      (Engine.demangle {} "_Z1fi").1.toOption = some "f(int)" := by
  have narrow : (Engine.demangle { options := ⟨16, 5, 6, false⟩ } "_Z1fi").1.toOption =
      some "f(int)" := by decide +kernel
  have within : Options.Within ⟨16, 5, 6, false⟩ {} := by
    constructor <;> decide
  refine ⟨narrow, ?_⟩
  rw [demangle_eq_of_within within "_Z1fi" ?_, narrow]
  intro fault failed
  rw [failed] at narrow
  cases narrow

end Engine
end Unmangle
