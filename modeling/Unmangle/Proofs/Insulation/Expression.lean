import Unmangle.Grammar.Expression
import Unmangle.Grammar.Literal
import Unmangle.Proofs.Insulation.Name

/-!
# Expressions and literals apart from what is allowed around them

The type of a conversion takes no arguments, whatever is allowed around the conversion.
-/
namespace Unmangle.Parse.Blind

open ParseState

variable {outer inner : ParseState} {call : Calls}

theorem functionParam : Blind outer inner Parse.functionParam := by
  have numbered : Blind outer inner Parse.functionParam.numbered := by
    apply (discard qualifiers).seq
    apply (number false).bind
    intro digits
    apply (expect "_").seq
    exact make _
  apply (accept "fpT").bind
  intro held
  apply ite (makeName _)
  apply (accept "fp").bind
  intro held
  apply ite numbered
  apply (accept "fL").bind
  intro held
  refine ite ?_ unexpected
  apply (number false).bind
  intro digits
  apply (ensure unexpected).seq
  apply (expect "p").seq
  exact numbered

theorem packSize : Blind outer inner Parse.packSize := by
  apply peek.bind
  intro letter
  split
  · apply templateParam.bind
    intro param
    exact make _
  · apply functionParam.bind
    intro param
    exact make _
  · exact unexpected

theorem literalNumber : Blind outer inner Parse.literalNumber := by
  apply (number true).bind
  intro value
  apply (ensure unexpected).seq
  apply (expect "E").seq
  exact pure value

theorem floatLiteral (format : FloatFormat) : Blind outer inner (Parse.floatLiteral format) := by
  apply look fun _ _ => rfl
  intro s
  apply (orFault _ _).bind
  intro behind
  apply (ensure (throw _)).seq
  apply bind (modified fun _ _ => rfl)
  intro _
  apply (expect "E").seq
  exact make _

section Calls

variable (calls : ∀ rule, Blind outer inner (call rule))
include calls

theorem fold : Blind outer inner (Parse.fold call) := by
  apply (expect "f").seq
  apply peek.bind
  intro letter
  cases foldSide? letter with
  | none => exact unexpected
  | some side =>
    apply (advance 1).seq
    apply peekPair.bind
    intro letters
    dsimp only
    cases Operator.find? letters.1 letters.2 with
    | none => exact unexpected
    | some operator =>
      apply (ensure (throw _)).seq
      apply (advance 2).seq
      apply (calls .expression).bind
      intro first
      apply bind
      · exact ite (map (calls .expression)) (pure none)
      intro second
      split
      · exact make _
      · exact make _

theorem initializers : Blind outer inner (Parse.initializers call) := by
  apply (accept "pi").bind
  intro held
  apply ite (nodesUntil "E" (calls .expression))
  apply (expect "E").seq
  exact pure #[]

theorem new (isGlobal isArray : Bool) : Blind outer inner (Parse.new call isGlobal isArray) := by
  apply (nodesUntil "_" (calls .expression)).bind
  intro placement
  apply (calls .type).bind
  intro type
  apply (initializers calls).bind
  intro inits
  apply (makeList placement).bind
  intro list
  apply (makeList inits).bind
  intro list
  exact make _

theorem conversionOperands : Blind outer inner (Parse.conversionOperands call) := by
  apply (accept "_").bind
  intro held
  apply ite (nodesUntil "E" (calls .expression))
  apply (calls .expression).bind
  intro id
  exact pure #[id]

theorem conversion : Blind outer inner (Parse.conversion call) := by
  intro s t h
  refine .get (Agrees.bind (.modified fun still => ?_) fun _ s' t' _ _ h' => ?_)
  · exact ⟨by rw [h.same]; rfl, .inl rfl, h.ahead, h.lambda, still⟩
  · refine Agrees.bind (.thenAlways (calls .type s' t' h') fun u v h'' still => ?_) fun type u v _
      _ h'' => ?_
    · exact ⟨by rw [h''.same]; rfl, h.args, h''.ahead, h''.lambda, still⟩
    · refine bind (conversionOperands calls) ?_ u v h''
      intro operands
      apply (makeList operands).bind
      intro list
      exact make _

theorem operation (operator : Operator) (isGlobal : Bool) :
    Blind outer inner (Parse.operation call operator isGlobal) := by
  unfold Parse.operation
  cases operator.form with
  | binary | subscript | member | namedCast =>
    apply (calls _).bind
    intro left
    apply (calls _).bind
    intro right
    exact make _
  | leading | delete | ofType | ofExpression =>
    apply (calls _).bind
    intro operand
    exact make _
  | trailing =>
    apply (accept "_").bind
    intro isLeading
    apply ite
    · apply (calls .expression).bind
      intro operand
      exact make _
    · apply (calls .expression).bind
      intro operand
      exact make _
  | new isArray => exact new calls isGlobal isArray
  | call =>
    apply (calls .expression).bind
    intro callee
    apply (nodesUntil "E" (calls .expression)).bind
    intro args
    apply (makeList args).bind
    intro list
    exact make _
  | cast => exact conversion calls
  | conditional =>
    apply (calls .expression).bind
    intro condition
    apply (calls .expression).bind
    intro yes
    apply (calls .expression).bind
    intro no
    exact make _

theorem bracedList : Blind outer inner (Parse.bracedList call) :=
  (nodesUntil "E" (calls .bracedExpression)).bind makeList

theorem behindWord (form : WordForm) : Blind outer inner (Parse.behindWord call form) := by
  cases form with
  | initList =>
    apply (bracedList calls).bind
    intro list
    exact make _
  | typedInitList =>
    apply (calls .type).bind
    intro type
    apply (bracedList calls).bind
    intro list
    exact make _
  | throw | noexcept | expansion =>
    apply (calls .expression).bind
    intro operand
    exact make _
  | rethrow => exact makeName _
  | packSize => exact packSize
  | elementCount =>
    apply (nodesUntil "E" (calls .templateArg)).bind
    intro args
    apply (makeList args).bind
    intro list
    apply (make _).bind
    intro pack
    exact make _

theorem wordExpression (isGlobal : Bool) : Blind outer inner (Parse.wordExpression call isGlobal) := by
  apply peekPair.bind
  intro letters
  dsimp only
  cases WordForm.ofLetters? letters.1 letters.2 with
  | none => exact calls _
  | some form =>
    apply (advance 2).seq
    exact behindWord calls form

theorem expression : Blind outer inner (Parse.expression call) := by
  apply (accept "gs").bind
  intro isGlobal
  apply look fun _ _ => rfl
  intro _
  apply (ensure (throw _)).seq
  apply peekPair.bind
  intro pair
  dsimp only
  split
  · exact calls .literal
  · exact templateParam
  · apply (peekAt 2).bind
    intro letter
    exact ite functionParam (fold calls)
  · split
    · apply (advance 2).seq
      exact operation calls _ isGlobal
    · exact wordExpression calls isGlobal

theorem initializer (form : InitializerForm) :
    Blind outer inner (Parse.initializer call form) := by
  cases form with
  | field =>
    apply sourceName.bind
    intro field
    apply (calls .bracedExpression).bind
    intro value
    exact make _
  | element =>
    apply (calls .expression).bind
    intro index
    apply (calls .bracedExpression).bind
    intro value
    exact make _
  | range =>
    apply (calls .expression).bind
    intro first
    apply (calls .expression).bind
    intro last
    apply (calls .bracedExpression).bind
    intro value
    exact make _

theorem bracedExpression : Blind outer inner (Parse.bracedExpression call) := by
  apply peekPair.bind
  intro letters
  dsimp only
  cases InitializerForm.ofLetters? letters.1 letters.2 with
  | none => exact calls _
  | some form =>
    apply (advance 2).seq
    exact initializer calls form

theorem simpleId : Blind outer inner (Parse.simpleId call) := by
  apply sourceName.bind
  intro name
  exact instantiateIfArgs calls name

theorem simpleIds (scope : NodeId) : Blind outer inner (Parse.simpleIds call scope) := by
  refine untilHolds (accept "E") ?_ scope
  intro scope
  apply (simpleId calls).bind
  intro name
  exact make _

theorem namedScopes (isGlobal : Bool) : Blind outer inner (Parse.namedScopes call isGlobal) := by
  apply (simpleId calls).bind
  intro outermost
  apply (ite (make _) (pure outermost)).bind
  intro scope
  exact simpleIds calls scope

theorem typeScope : Blind outer inner (Parse.typeScope call) := by
  apply (calls _).bind
  intro type
  exact instantiateIfArgs calls type

theorem unresolvedName (isGlobal : Bool) : Blind outer inner (Parse.unresolvedName call isGlobal) := by
  apply (accept "srN").bind
  intro held
  apply ite
  · apply (typeScope calls).bind
    intro type
    apply (simpleIds calls type).bind
    intro name
    apply (calls _).bind
    intro id
    exact make _
  apply (accept "sr").bind
  intro held
  apply ite
  · apply peek.bind
    intro letter
    apply (ite (namedScopes calls isGlobal) (typeScope calls)).bind
    intro scope
    apply (calls _).bind
    intro id
    exact make _
  · apply (calls _).bind
    intro base
    exact ite (make _) (pure base)

theorem unresolvedType : Blind outer inner (Parse.unresolvedType call) := by
  apply peek.bind
  intro letter
  split
  · apply templateParam.bind
    intro param
    apply (enlist param).seq
    exact pure param
  · apply (calls .decltype).bind
    intro type
    apply (enlist type).seq
    exact pure type
  · exact calls _

theorem baseUnresolvedName : Blind outer inner (Parse.baseUnresolvedName call) := by
  apply peek.bind
  intro letter
  apply ite (simpleId calls)
  apply (accept "dn").bind
  intro held
  apply ite
  · apply peek.bind
    intro letter
    apply (ite (simpleId calls) (calls _)).bind
    intro id
    exact make _
  · apply (discard (accept "on")).seq
    apply (calls _).bind
    intro name
    exact instantiateIfArgs calls name

theorem enumerator : Blind outer inner (Parse.enumerator call) := by
  apply (calls .type).bind
  intro type
  apply literalNumber.bind
  intro value
  exact make _

theorem literal : Blind outer inner (Parse.literal call) := by
  apply (expect "L").seq
  apply peekPair.bind
  intro pair
  dsimp only
  split
  · apply (advance 1).seq
    apply literalNumber.bind
    intro value
    exact make _
  · split
    · apply (accept "b0E").bind
      intro held
      apply ite (make _)
      apply (accept "b1E").bind
      intro held
      exact ite (make _) unexpected
    · apply (expect "_Z").seq
      apply (calls .encoding).bind
      intro encoding
      apply (expect "E").seq
      exact pure encoding
    · apply (calls .type).bind
      intro type
      apply (expect "E").seq
      exact make _
    · apply (accept "DnE").bind
      intro held
      apply ite (makeName _)
      apply (accept "Dn0E").bind
      intro held
      exact ite (makeName _) (enumerator calls)
    · exact throw _
    · split
      · apply (advance 1).seq
        exact floatLiteral _
      · refine ite ?_ (enumerator calls)
        apply (unnamedTypeName calls).bind
        intro closure
        apply (expect "E").seq
        exact make _

end Calls

end Unmangle.Parse.Blind
