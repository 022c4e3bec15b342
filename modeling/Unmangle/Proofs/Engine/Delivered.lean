import Unmangle.Proofs.Engine.Withheld

/-!
# A call delivers everything or nothing

A caller may ask for the text, for its length, for both or for neither. What it gets is what
`demangle` gives, in every slot it has. When there is nothing to get, every slot keeps what was in
it.
-/
namespace Unmangle

namespace Slots

/-- A call that is refused unseen: there is no name, or no place for the length of what the buffer
is to get. -/
def Misused (slots : Slots) (name : String) : Prop :=
  name = "" ∨ slots.buffer.isSome = true ∧ slots.length = none

/-- The slots that were given, with a text and its length in them. -/
def filled (slots : Slots) (text : String) : Slots where
  buffer := slots.buffer.map fun _ => text
  length := slots.length.map fun _ => text.utf8ByteSize

theorem misused_iff (slots : Slots) (name : String) :
    (name.isEmpty || (slots.buffer.isSome && slots.length.isNone)) = true ↔ slots.Misused name := by
  simp [Misused]

end Slots

namespace Engine

variable {engine : Engine} {name : String} {slots : Slots}

/-- A misused call is refused before the length of the name is looked at. -/
theorem demangleTo_of_misused (misused : slots.Misused name) :
    engine.demangleTo name slots = (.error .invalidArguments, slots, engine) := by
  rw [demangleTo, answer, if_pos ((slots.misused_iff name).mpr misused)]

/-- Any other call is answered alike, whichever slots come with it. -/
theorem answer_of_not_misused (proper : ¬slots.Misused name) :
    engine.answer name slots = engine.answer name ⟨some "", some 0⟩ := by
  have named : ¬(⟨some "", some 0⟩ : Slots).Misused name := by
    simp only [Slots.Misused] at proper ⊢
    simp_all
  rw [answer, answer, if_neg (mt (slots.misused_iff name).mp proper),
    if_neg (mt (Slots.misused_iff _ name).mp named)]

/-- What `demangle` gives goes into every slot there is, and what it fails for is passed on. -/
theorem demangleTo_of_not_misused (proper : ¬slots.Misused name) :
    engine.demangleTo name slots =
      match engine.demangle name with
      | (.ok text, after) => (.ok (), slots.filled text, after)
      | (.error fault, after) => (.error fault, slots, after) := by
  rw [demangle, demangleTo, demangleTo, ← answer_of_not_misused proper]
  rcases engine.answer name slots with ⟨fault | text, after⟩
  · rfl
  · rfl

/-- A call that fails leaves the slots as they were, and fails for misuse or for what `demangle`
fails for. A call that succeeds fills every slot there is with what `demangle` gives. An engine
between calls is between calls again, and `demangle` may be asked of any other one with its options,
such as the engine that the call leaves. -/
theorem demangleTo_all_or_nothing (engine : Engine) (name : String) (slots : Slots) :
    let call := engine.demangleTo name slots
    (∀ fault, call.1 = .error fault → call.2.1 = slots ∧
      (slots.Misused name → fault = .invalidArguments) ∧
      (¬slots.Misused name → (engine.demangle name).1 = .error fault)) ∧
    (call.1 = .ok () → ∃ text, (engine.demangle name).1 = .ok text ∧
      call.2.1.buffer = slots.buffer.map (fun _ => text) ∧
      call.2.1.length = slots.length.map (fun _ => text.utf8ByteSize)) ∧
    (slots.Misused name → call.1 = .error .invalidArguments) ∧
    ∀ options, AtRest options engine → AtRest options call.2.2 ∧
      ∀ other, AtRest options other → (other.demangle name).1 = (engine.demangle name).1 := by
  intro call
  have resting (options : Options) (rest : AtRest options engine) : AtRest options call.2.2 ∧
      ∀ other, AtRest options other → (other.demangle name).1 = (engine.demangle name).1 := by
    constructor
    · exact (rest.demangleTo rest name slots).2
    · intro other rest'
      exact (rest'.demangle rest name).1
  by_cases misused : slots.Misused name
  · have refused : call = (.error .invalidArguments, slots, engine) := demangleTo_of_misused misused
    refine ⟨?_, ?_, ?_, resting⟩
    · intro fault failed
      obtain rfl : Fault.invalidArguments = fault := by simpa [refused] using failed
      simp [refused, misused]
    · intro succeeded
      simp [refused] at succeeded
    · simp [refused]
  · have delivered : call = _ := demangleTo_of_not_misused misused
    generalize engine.demangle name = whole at delivered resting ⊢
    rcases whole with ⟨fault | text, after⟩
    · refine ⟨?_, ?_, ?_, resting⟩
      · intro fault' failed
        obtain rfl : fault = fault' := by simpa [delivered] using failed
        simp [delivered, misused]
      · intro succeeded
        simp [delivered] at succeeded
      · simp [misused]
    · refine ⟨?_, ?_, ?_, resting⟩
      · intro fault failed
        simp [delivered] at failed
      · intro _
        exact ⟨text, rfl, by simp [delivered, Slots.filled]⟩
      · simp [misused]

/-- What the slots held is replaced, and the engine gives the same text again. -/
theorem demangleTo_over_old :
    (Engine.demangleTo {} "_Z1fv" ⟨some "old", some 7⟩).2.1.buffer = some "f()" ∧
      (Engine.demangleTo {} "_Z1fv" ⟨some "old", some 7⟩).2.1.length = some 3 ∧
      ((Engine.demangleTo {} "_Z1fv" ⟨some "old", some 7⟩).2.2.demangle "_Z1fv").1 =
        .ok "f()" := by
  have succeeded : (Engine.demangleTo {} "_Z1fv" ⟨some "old", some 7⟩).1 = .ok () := by
    decide +kernel
  have first : (Engine.demangle {} "_Z1fv").1 = .ok "f()" := by decide +kernel
  obtain ⟨-, given, -, again⟩ := demangleTo_all_or_nothing {} "_Z1fv" ⟨some "old", some 7⟩
  obtain ⟨text, whole, buffer, length⟩ := given succeeded
  obtain rfl : "f()" = text := by simpa [first] using whole
  refine ⟨?_, ?_, ?_⟩
  · rw [buffer, Option.map_some]
  · rw [length]
    decide
  · obtain ⟨after, alike⟩ := again {} (.fresh {})
    rw [alike _ after, first]

end Engine
end Unmangle
