import Unmangle.Grammar.Type
import Unmangle.Proofs.Insulation.Name

/-!
# Types apart from what is allowed around them

Whether arguments belong to a template parameter or a substitution is the one question that a
type has about its surroundings.
-/
namespace Unmangle

/-- A substitution that is read comes from one in a state on the way, one level deeper. -/
def Parse.Substitutes (call : Calls) : Prop :=
  ∀ s id t, (call .substitution).run s = .ok id t → ∃ u u',
    (call .substitution).happens s (.visits u) ∧ substitution.run u = .ok id u' ∧ t = up u'

namespace Parse.Blind

open ParseState

variable {outer inner : ParseState} {call : Calls}

theorem listing {type : Parse NodeId} (h : Blind outer inner type) :
    Blind outer inner (Parse.listing type) := by
  apply h.bind
  intro id
  apply (enlist id).seq
  exact pure id

theorem qualifiesFunction : Blind outer inner Parse.qualifiesFunction := by
  apply look fun _ _ => rfl
  intro s
  split
  split <;> exact pure _

theorem binaryFloat : Blind outer inner Parse.binaryFloat := by
  apply (advance 2).seq
  apply (number false).bind
  intro digits
  apply (ensure unexpected).seq
  apply (expect "_").seq
  exact make _

theorem typeKeyword : Blind outer inner Parse.typeKeyword := by
  apply (accept "Ts").bind
  intro held
  apply ite (pure _)
  apply (accept "Tu").bind
  intro held
  apply ite (pure _)
  apply (accept "Te").bind
  intro held
  exact ite (pure _) (pure none)

theorem atParamsEnd : Blind outer inner Parse.atParamsEnd := by
  apply (lookingAt "E").bind
  intro ahead
  apply ite (pure true)
  apply (lookingAt "RE").bind
  intro ahead
  exact ite (pure true) (lookingAt "OE")

section Calls

variable (calls : ∀ rule, Blind outer inner (call rule))
include calls

theorem parameterType : Blind outer inner (Parse.parameterType call) := by
  intro s t h
  apply (templateParam s t h).bind
  intro param s' t' read _ h'
  have expanded : Blind outer inner (do Parse.enlist param; Parse.instantiate call false param) :=
    (enlist param).seq (instantiate calls false param)
  exact ifArgs expanded (pure param) h' fun differs outside args =>
    h.still (.paramArgs read args differs outside)

theorem substitutionType (substitutes : Substitutes call) :
    Blind outer inner (Parse.substitutionType call) := by
  intro s t h
  apply (calls .substitution s t h).bind
  intro listed s' t' read quiet h'
  have expanded : Blind outer inner (Parse.listing (Parse.instantiate call false listed)) :=
    listing (instantiate calls false listed)
  obtain ⟨u, u', visited, here, rfl⟩ := substitutes t listed t' read
  exact ifArgs expanded (pure listed) h' fun differs outside args =>
    quiet u visited (.listedArgs here args differs outside)

theorem wrappedType (wrap : NodeId → Node) : Blind outer inner (Parse.wrappedType call wrap) := by
  apply (advance 1).seq
  apply (calls .type).bind
  intro type
  exact make _

theorem type (substitutes : Substitutes call) : Blind outer inner (Parse.type call) := by
  apply peekPair.bind
  intro letters
  dsimp only
  cases TypeKind.ofLetters letters.1 letters.2 with
  | builtin words =>
    apply (advance 1).seq
    exact makeName words
  | extended words =>
    apply (advance 2).seq
    exact makeName words
  | listed rule => exact listing (calls rule)
  | qualified =>
    apply listing
    apply qualifiesFunction.bind
    intro isFunction
    exact ite (calls .functionType) (calls .qualifiedType)
  | vendor =>
    apply (advance 1).seq
    apply listing
    apply identifier.bind
    intro name
    exact make _
  | binaryFloat => exact listing binaryFloat
  | expansion =>
    apply (advance 2).seq
    apply listing
    apply (calls .type).bind
    intro type
    exact make _
  | parameter => exact listing (parameterType calls)
  | pointer | reference | trailing => exact listing (wrappedType calls _)
  | substitution => exact substitutionType calls substitutes
  | unknown => exact unexpected

theorem qualifiedType : Blind outer inner (Parse.qualifiedType call) := by
  apply (accept "U").bind
  intro held
  apply ite
  · apply identifier.bind
    intro name
    apply (calls .qualifiedType).bind
    intro id
    exact make _
  · apply qualifiers.bind
    intro quals
    apply (calls .type).bind
    intro type
    exact ite (pure type) (make _)

theorem exceptionSpec : Blind outer inner (Parse.exceptionSpec call) := by
  apply (accept "Do").bind
  intro held
  refine ite (map (makeName _)) ?_
  apply (accept "DO").bind
  intro held
  apply ite
  · apply (calls .expression).bind
    intro operand
    apply (expect "E").seq
    exact map (make _)
  · apply (accept "Dw").bind
    intro held
    refine ite ?_ (pure none)
    apply (nodesUntil "E" (calls .type)).bind
    intro types
    apply (makeList types).bind
    intro list
    exact map (make _)

theorem functionParams : Blind outer inner (Parse.functionParams call) := by
  refine untilHolds atParamsEnd (fun params => ?_) #[]
  apply (accept "v").bind
  intro held
  apply ite (pure params)
  apply (calls .type).bind
  intro id
  exact pure (params.push id)

theorem functionType : Blind outer inner (Parse.functionType call) := by
  apply qualifiers.bind
  intro quals
  apply (exceptionSpec calls).bind
  intro exception
  apply (discard (accept "Dx")).seq
  apply (expect "F").seq
  apply (discard (accept "Y")).seq
  apply (calls .type).bind
  intro result
  apply (functionParams calls).bind
  intro params
  apply refQualifier.bind
  intro ref
  apply (expect "E").seq
  apply (makeList params).bind
  intro list
  exact make _

theorem computedDimension : Blind outer inner (Parse.computedDimension call) := by
  apply (accept "_").bind
  intro held
  apply ite (pure none)
  apply (calls .expression).bind
  intro size
  apply (expect "_").seq
  exact pure (some size)

theorem arrayDimension : Blind outer inner (Parse.arrayDimension call) := by
  apply peek.bind
  intro letter
  refine ite ?_ (computedDimension calls)
  apply (number false).bind
  intro digits
  apply (expect "_").seq
  apply (make _).bind
  intro id
  exact pure _

theorem arrayType : Blind outer inner (Parse.arrayType call) := by
  apply (expect "A").seq
  apply (arrayDimension calls).bind
  intro dimension
  apply (calls .type).bind
  intro type
  exact make _

theorem memberPointerType : Blind outer inner (Parse.memberPointerType call) := by
  apply (expect "M").seq
  apply (calls .type).bind
  intro type
  apply (calls .type).bind
  intro type
  exact make _

theorem namedType : Blind outer inner (Parse.namedType call) := by
  apply typeKeyword.bind
  intro keyword
  apply (calls _).bind
  intro name
  split
  · exact make _
  · exact pure name

theorem decltype : Blind outer inner (Parse.decltype call) := by
  apply (accept "Dt").bind
  intro held
  apply (ite (pure true) (accept "DT")).bind
  intro held
  apply (ensure unexpected).seq
  apply (calls .expression).bind
  intro operand
  apply (expect "E").seq
  exact make _

theorem vectorType : Blind outer inner (Parse.vectorType call) := by
  apply (expect "Dv").seq
  apply peek.bind
  intro letter
  apply ite
  · apply (number false).bind
    intro digits
    apply (make _).bind
    intro id
    apply (expect "_").seq
    apply (accept "p").bind
    intro held
    apply ite
    · exact make _
    · apply (calls .type).bind
      intro type
      exact make _
  · apply (computedDimension calls).bind
    intro dimension
    apply (calls .type).bind
    intro type
    exact make _

end Calls

end Parse.Blind
end Unmangle
