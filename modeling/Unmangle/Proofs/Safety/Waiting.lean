import Unmangle.Options
import Unmangle.Proofs.Safety.Parse
import Unmangle.Proofs.Spelling.Settled

/-!
# Template parameters that waited

A template parameter that is used ahead of its argument waits on a list. A parse that
succeeds ends with that list empty, and what is on the list is the only thing that waits.
-/
namespace Unmangle

/-- Every template parameter that ever waited in a successful parse has got an argument of
the same tree, none waits any more, and spelling can fail at its limits only. -/
theorem parse_answers_all (options : Options) (generation : UInt32) (symbol : ByteArray)
    (root : NodeId) (state : ParseState)
    (parsed : (Rule.parse options.maxRecursion options.maxRecursion .symbol).run
      (.start generation symbol) = .ok root state) :
    (∀ before, (Rule.parse options.maxRecursion options.maxRecursion .symbol).happens
        (.start generation symbol) (.visits before) →
      ∀ id index old, before.work.tree.get? id = some (.forwardParam index old) →
        ∃ target, state.work.tree.get? id = some (.forwardParam index (some target)) ∧
          target.HeldIn state.work.tree) ∧
      (∀ id index old, state.work.tree.get? id = some (.forwardParam index old) →
        ∃ target, old = some target ∧ target.HeldIn state.work.tree) ∧
      state.work.forward = #[] ∧
      ∀ fault, render ⟨options.maxRecursion, options.maxOutputLen⟩ symbol state.work.tree root =
        .error fault → fault = .tooLong ∨ fault = .tooMuchRecursion := by
  obtain ⟨settled, empty, stay⟩ := settled_of_parse parsed
  have sound := final_sound options generation symbol
  rw [parsed] at sound
  have last : ∀ id index old, state.work.tree.get? id = some (.forwardParam index old) →
      ∃ target, old = some target ∧ target.HeldIn state.work.tree := by
    intro id index old hid
    obtain ⟨target, rfl⟩ := Option.isSome_iff_exists.mp (settled.answered id index old hid)
    exact ⟨target, rfl, (sound.work.tree.nodes id _ hid).target target rfl⟩
  refine ⟨?_, last, empty, ?_⟩
  · intro before visited id index old hid
    obtain ⟨new, hnew⟩ := stay before visited id index old hid
    obtain ⟨target, rfl, held⟩ := last id index new hnew
    exact ⟨target, hnew, held⟩
  · intro fault failed
    obtain ⟨out, hr, -⟩ | ⟨fault', hr, limit⟩ :=
      settled.render ⟨options.maxRecursion, options.maxOutputLen⟩ root
    · rw [hr] at failed
      cases failed
    · rw [hr] at failed
      cases failed
      exact limit.symm

/-- What a parse that succeeded has under a name. -/
def Parse.outcome? (result : EStateM.Result Fault ParseState NodeId) (id : NodeId) : Option Node :=
  match result with
  | .ok _ state => state.work.tree.get? id
  | .error _ _ => none

/-- The type that a conversion operator is named after waits for the argument behind it. -/
theorem conversion_answered :
    ∃ root state, (Rule.parse (Options.maxRecursion {}) (Options.maxRecursion {}) .symbol).run
        (.start 0 "_ZN1AcvT_IiEEv".toUTF8) = .ok root state ∧
      state.work.tree.get? ⟨1, 0⟩ = some (.forwardParam 0 (some ⟨4, 0⟩)) ∧
      NodeId.HeldIn state.work.tree ⟨4, 0⟩ := by
  have hid : Parse.outcome? ((Rule.parse (Options.maxRecursion {}) (Options.maxRecursion {})
      .symbol).run (.start 0 "_ZN1AcvT_IiEEv".toUTF8)) ⟨1, 0⟩ =
      some (.forwardParam 0 (some ⟨4, 0⟩)) := by decide +kernel
  generalize parsed : (Rule.parse (Options.maxRecursion {}) (Options.maxRecursion {}) .symbol).run
    (.start 0 "_ZN1AcvT_IiEEv".toUTF8) = r at hid ⊢
  cases r with
  | error fault state => cases hid
  | ok root state =>
    obtain ⟨-, answered, -⟩ := parse_answers_all {} 0 "_ZN1AcvT_IiEEv".toUTF8 root state parsed
    obtain ⟨target, same, held⟩ := answered _ _ _ hid
    cases same
    exact ⟨root, state, rfl, hid, held⟩

end Unmangle
