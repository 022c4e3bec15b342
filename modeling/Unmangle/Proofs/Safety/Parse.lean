import Unmangle.Options
import Unmangle.Proofs.Comparison.Symbol

/-!
# Nothing out of range

A parse that begins in an empty workspace is sound from its first state to its last, on
every symbol and under every limit, and so is all that it looks at. What it hands on is
sound as well, so spelling looks at nothing that is not there, also where a template
parameter that waited leads in a circle.
-/
namespace Unmangle

/-- What a parse ends with is sound, also where it fails. -/
theorem final_sound (options : Options) (generation : UInt32) (symbol : ByteArray) :
    (Parse.final ((Rule.parse options.maxRecursion options.maxRecursion .symbol).run
      (.start generation symbol))).Sound symbol := by
  obtain ⟨-, outcome⟩ := (Sides.both symbol generation generation).reads options.maxRecursion
    options.maxRecursion .symbol (0, 0) _ _ (Sides.start symbol generation generation)
    fun _ _ lost => lost.elim
  obtain ⟨v, root, root', state, state', hr, -, -, same, -⟩ |
    ⟨v, fault, state, state', hr, -, -, same, -⟩ | ⟨_, _, -, gone⟩ := outcome.elim
  · rw [hr]
    exact Sides.sound same
  · rw [hr]
    exact Sides.sound same
  · exact gone.elim

/-- Every state of a parse is sound, with all that the parse looks at, and spelling
what was read looks at nothing out of range. -/
theorem parse_in_range (options : Options) (generation : UInt32) (symbol : ByteArray) :
    let parse := Rule.parse options.maxRecursion options.maxRecursion .symbol
    let start := ParseState.start generation symbol
    start.Sound symbol ∧ (∀ event, parse.happens start event → event.Sound symbol) ∧
      (Parse.final (parse.run start)).Sound symbol ∧
      ∀ root state, parse.run start = .ok root state → root.HeldIn state.work.tree ∧
        ∀ access, (rendering ⟨options.maxRecursion, options.maxOutputLen⟩ symbol state.work.tree
          root).looksAt {} access → access.InRange symbol state.work.tree := by
  intro parse start
  have begun := Sides.start symbol generation generation
  obtain ⟨-, outcome⟩ := (Sides.both symbol generation generation).reads options.maxRecursion
    options.maxRecursion .symbol (0, 0) start start begun fun _ _ lost => lost.elim
  refine ⟨Sides.sound begun, fun _ => Sides.event_sound, final_sound options generation symbol, ?_⟩
  obtain ⟨v, root, root', state, state', hr, -, -, same, -, name⟩ |
    ⟨v, fault, state, state', hr, -⟩ | ⟨_, _, -, gone⟩ := outcome.elim
  · rw [hr]
    rintro _ _ ⟨⟩
    have tree : Sides.SameTree _ v state.work.tree state'.work.tree := same.tree
    exact ⟨tree.heldIn name le_rfl, tree.mirror.looks rfl _ name⟩
  · rw [hr]
    rintro _ _ ⟨⟩
  · exact gone.elim

end Unmangle
