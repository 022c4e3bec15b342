import Unmangle.Proofs.Comparison.Name
import Unmangle.Grammar.Literal

/-!
# Literals side by side
-/
namespace Unmangle.Comparison

variable {C : Comparison} {w : C.World}

namespace Follows

variable (law : C.Lawful) {call call' : Calls} (reads : C.Reads call call')
include law

theorem literalNumber : C.Follows w Parse.literalNumber Parse.literalNumber fun _ => C.text := by
  apply (number law true).bind
  intro _ _ value value' hvalue
  apply (ensure (congrArg not (law.isEmpty hvalue)) (unexpected law)).seq
  intro _ _
  apply (expect law "E").seq
  intro _ _
  exact pure hvalue

theorem floatLiteral (format : FloatFormat) :
    C.Follows w (Parse.floatLiteral format) (Parse.floatLiteral format) C.name := by
  apply get.bind
  intro _ _ s s' hs
  refine (orFault (R := fun _ => _) (law.take? hs.cursor format.digits) _).bind ?_
  rintro _ _ behind behind' ⟨fits, rfl, rfl, hbehind⟩
  rw [← law.rest hs.cursor]
  apply (ensure_throw _ _).bind
  intro _ _ _ _ hex
  apply Follows.bind (modified law (fun _ _ ht => ht.setCursor hbehind) fun _ => rfl)
  intro _ _ _ _ _
  have hbits := law.bits format hs.cursor fits hex
  apply (expect law "E").seq
  intro _ _
  exact make law (.float format hbits)

include reads

theorem enumerator : C.Follows w (Parse.enumerator call) (Parse.enumerator call') C.name := by
  apply (reads .type _).bind
  intro _ _ type type' htype
  apply (literalNumber law).bind
  intro _ later _ _ hvalue
  exact make law (.enumerator (law.name_mono later htype) hvalue)

/-- A node, and the end of what it stands in. -/
theorem endedBy (token : String) {rule : Rule} :
    C.Follows w
      (do
        let id ← call rule
        Parse.expect token
        return id)
      (do
        let id ← call' rule
        Parse.expect token
        return id) C.name := by
  apply (reads rule _).bind
  intro _ _ _ _ hid
  apply (expect law token).seq
  intro _ later
  exact pure (law.name_mono later hid)

theorem literal : C.Follows w (Parse.literal call) (Parse.literal call') C.name := by
  apply (expect law "L").seq
  intro _ _
  refine (peekPair law).bind ?_
  rintro _ _ ⟨first, second⟩ _ rfl
  dsimp only
  split
  · apply (advance law 1).seq
    intro _ _
    apply (literalNumber law).bind
    intro _ _ _ _ hvalue
    exact make law (.integer _ hvalue)
  · split
    · refine (accept law "b0E").bind ?_
      rintro _ _ isFalse _ rfl
      refine ite (fun _ => make law (.boolean false)) fun _ => (accept law "b1E").bind ?_
      rintro _ _ isTrue _ rfl
      exact ite (fun _ => make law (.boolean true)) fun _ => unexpected law
    · apply (expect law "_Z").seq
      intro _ _
      exact endedBy law reads "E"
    · apply (reads .type _).bind
      intro _ _ type type' htype
      apply (expect law "E").seq
      intro _ later
      exact make law (.stringLiteral (law.name_mono later htype))
    · refine (accept law "DnE").bind ?_
      rintro _ _ isNull _ rfl
      refine ite (fun _ => makeName law _) fun _ => (accept law "Dn0E").bind ?_
      rintro _ _ isZero _ rfl
      exact ite (fun _ => makeName law _) fun _ => enumerator law reads
    · exact throw _
    · split
      · apply (advance law 1).seq
        intro _ _
        exact floatLiteral law _
      · refine ite (fun _ => ?_) fun _ => enumerator law reads
        apply (unnamedTypeName law reads).bind
        intro _ _ type type' htype
        apply (expect law "E").seq
        intro _ later
        exact make law (.lambdaLiteral (law.name_mono later htype))

end Follows
end Unmangle.Comparison
