import Unmangle.Grammar.Expression
import Unmangle.Proofs.Course.Name

/-!
# Expressions on course
-/
namespace Unmangle

theorem WordForm.letters {first second : Char} {form : WordForm}
    (announced : ofLetters? first second = some form) : Letter first ∧ Letter second := by
  unfold ofLetters? at announced
  split at announced <;> first | decide | cases announced

theorem InitializerForm.letters {first second : Char} {form : InitializerForm}
    (announced : ofLetters? first second = some form) : Letter first ∧ Letter second := by
  unfold ofLetters? at announced
  split at announced <;> first | decide | cases announced

theorem Parse.letter_of_foldSide? {letter : Char} {side : Bool × Bool}
    (announced : foldSide? letter = some side) : Letter letter := by
  unfold foldSide? at announced
  split at announced <;> first | decide | cases announced

namespace OnCourse

variable {symbol : ByteArray} {call : Calls} {s : ParseState}

theorem functionParam : OnCourse symbol Parse.functionParam := by
  have numbered : OnCourse symbol Parse.functionParam.numbered :=
    (discard qualifiers).seq (counted (fun _ => rfl) fun _ _ => nofun)
  apply (accept (by decide)).bind
  intro held
  refine ite (makeName _) ?_
  apply (accept (by decide)).bind
  intro held
  refine ite numbered ?_
  apply (accept (by decide)).bind
  intro held
  refine ite ?_ unexpected
  apply (number false).bind
  intro digits
  apply (ensure unexpected).seq
  apply (expect (by decide)).seq
  exact numbered

theorem packSize : OnCourse symbol Parse.packSize := by
  apply peek.bind
  intro letter
  split
  · apply templateParam.bind
    intro param
    exact make rfl nofun
  · apply functionParam.bind
    intro param
    exact make rfl nofun
  · exact unexpected

variable (calls : ∀ rule, OnCourse symbol (call rule))
include calls

theorem fold : OnCourse symbol (Parse.fold call) := by
  apply (expect (by decide)).bind
  intro _ s
  apply Leads.peek_bind
  intro letter look
  cases announced : Parse.foldSide? letter with
  | none => exact .unexpected
  | some side =>
    apply (Leads.advance_one look (Parse.letter_of_foldSide? announced)).bind
    intro _ u _ _ _
    apply Leads.peekPair_bind
    intro first second look look'
    dsimp only
    cases found : Operator.find? first second with
    | none => exact .unexpected
    | some operator =>
      obtain ⟨letter, letter'⟩ := Operator.letters found
      refine .ensure_bind (.throw _) ?_
      intro _
      apply (Leads.advance_two look look' letter letter').next
      intro _
      apply (calls .expression).bind
      intro first
      apply OnCourse.bind
      · exact ite (map (calls .expression)) (pure none)
      intro second
      split
      · exact make rfl nofun
      · exact make rfl nofun

theorem initializers : OnCourse symbol (Parse.initializers call) := by
  apply (accept (by decide)).bind
  intro held
  apply ite (nodesUntil (by decide) (calls .expression))
  apply (expect (by decide)).seq
  exact pure #[]

theorem new (isGlobal isArray : Bool) : OnCourse symbol (Parse.new call isGlobal isArray) := by
  apply (nodesUntil (by decide) (calls .expression)).bind
  intro placement
  apply (calls .type).bind
  intro type
  apply (initializers calls).bind
  intro inits
  apply (makeList placement).bind
  intro list
  apply (makeList inits).bind
  intro list
  exact make rfl nofun

theorem conversionOperands : OnCourse symbol (Parse.conversionOperands call) := by
  apply (accept (by decide)).bind
  intro held
  apply ite (nodesUntil (by decide) (calls .expression))
  apply (calls .expression).bind
  intro id
  exact pure #[id]

theorem conversion : OnCourse symbol (Parse.conversion call) := by
  apply get.bind
  intro before
  apply OnCourse.seq
  · exact modified ⟨fun _ => rfl, fun _ => rfl, fun _ => rfl⟩
  apply OnCourse.bind
  · exact thenAlways ⟨fun _ => rfl, fun _ => rfl, fun _ => rfl⟩ (calls .type)
  · intro type
    apply (conversionOperands calls).bind
    intro operands
    apply (makeList operands).bind
    intro list
    exact make rfl nofun

theorem operation (operator : Operator) (isGlobal : Bool) :
    OnCourse symbol (Parse.operation call operator isGlobal) := by
  unfold Parse.operation
  cases operator.form with
  | binary | subscript | member | namedCast =>
    apply (calls _).bind
    intro left
    apply (calls _).bind
    intro right
    exact make rfl nofun
  | leading | delete | ofType | ofExpression =>
    apply (calls _).bind
    intro operand
    exact make rfl nofun
  | trailing =>
    apply (accept (by decide)).bind
    intro isLeading
    apply ite
    · apply (calls .expression).bind
      intro operand
      exact make rfl nofun
    · apply (calls .expression).bind
      intro operand
      exact make rfl nofun
  | new isArray => exact new calls isGlobal isArray
  | call =>
    apply (calls .expression).bind
    intro callee
    apply (nodesUntil (by decide) (calls .expression)).bind
    intro args
    apply (makeList args).bind
    intro list
    exact make rfl nofun
  | cast => exact conversion calls
  | conditional =>
    apply (calls .expression).bind
    intro condition
    apply (calls .expression).bind
    intro yes
    apply (calls .expression).bind
    intro no
    exact make rfl nofun

theorem bracedList : OnCourse symbol (Parse.bracedList call) :=
  (nodesUntil (by decide) (calls .bracedExpression)).bind makeList

theorem behindWord (form : WordForm) : OnCourse symbol (Parse.behindWord call form) := by
  cases form with
  | initList =>
    apply (bracedList calls).bind
    intro list
    exact make rfl nofun
  | typedInitList =>
    apply (calls .type).bind
    intro type
    apply (bracedList calls).bind
    intro list
    exact make rfl nofun
  | throw | noexcept | expansion =>
    apply (calls .expression).bind
    intro operand
    exact make rfl nofun
  | rethrow => exact makeName _
  | packSize => exact packSize
  | elementCount =>
    apply (nodesUntil (by decide) (calls .templateArg)).bind
    intro args
    apply (makeList args).bind
    intro list
    apply OnCourse.bind
    · exact make rfl nofun
    intro pack
    exact make rfl nofun

theorem wordExpression (isGlobal : Bool) :
    OnCourse symbol (Parse.wordExpression call isGlobal) := by
  intro s
  apply Leads.peekPair_bind
  intro first second look look'
  dsimp only
  cases announced : WordForm.ofLetters? first second with
  | none => exact calls _ s
  | some form =>
    obtain ⟨letter, letter'⟩ := WordForm.letters announced
    apply (Leads.advance_two look look' letter letter').next
    intro _
    exact behindWord calls form

theorem expression : OnCourse symbol (Parse.expression call) := by
  apply (accept (by decide)).bind
  intro isGlobal
  apply get.bind
  intro s
  apply (ensure (throw _)).bind
  intro _ s
  refine .peekPair_bind ?_
  intro first second look look'
  dsimp only
  split
  · exact calls .literal s
  · exact templateParam s
  · exact .peekAt_bind 2 fun _ _ => ite functionParam (fold calls) s
  · split
    · rename_i operator found
      obtain ⟨letter, letter'⟩ := Operator.letters found
      apply (Leads.advance_two look look' letter letter').next
      intro _
      exact operation calls operator isGlobal
    · exact wordExpression calls isGlobal s

theorem initializer (form : InitializerForm) : OnCourse symbol (Parse.initializer call form) := by
  cases form with
  | field =>
    apply sourceName.bind
    intro field
    apply (calls .bracedExpression).bind
    intro value
    exact make rfl nofun
  | element =>
    apply (calls .expression).bind
    intro index
    apply (calls .bracedExpression).bind
    intro value
    exact make rfl nofun
  | range =>
    apply (calls .expression).bind
    intro first
    apply (calls .expression).bind
    intro last
    apply (calls .bracedExpression).bind
    intro value
    exact make rfl nofun

theorem bracedExpression : OnCourse symbol (Parse.bracedExpression call) := by
  intro s
  apply Leads.peekPair_bind
  intro first second look look'
  dsimp only
  cases announced : InitializerForm.ofLetters? first second with
  | none => exact calls _ s
  | some form =>
    obtain ⟨letter, letter'⟩ := InitializerForm.letters announced
    apply (Leads.advance_two look look' letter letter').next
    intro _
    exact initializer calls form

theorem simpleId : OnCourse symbol (Parse.simpleId call) := by
  apply sourceName.bind
  intro name
  exact instantiateIfArgs calls name

theorem simpleIds (scope : NodeId) : OnCourse symbol (Parse.simpleIds call scope) := by
  refine untilHolds (accept (by decide)) (fun scope => ?_) scope
  apply (simpleId calls).bind
  intro name
  exact make rfl nofun

theorem namedScopes (isGlobal : Bool) : OnCourse symbol (Parse.namedScopes call isGlobal) := by
  apply (simpleId calls).bind
  intro outermost
  apply OnCourse.bind
  · exact ite (make rfl nofun) (pure outermost)
  intro scope
  exact simpleIds calls scope

theorem typeScope : OnCourse symbol (Parse.typeScope call) := by
  apply (calls _).bind
  intro type
  exact instantiateIfArgs calls type

theorem unresolvedName (isGlobal : Bool) :
    OnCourse symbol (Parse.unresolvedName call isGlobal) := by
  apply (accept (by decide)).bind
  intro held
  apply ite
  · apply (typeScope calls).bind
    intro type
    apply (simpleIds calls type).bind
    intro name
    apply (calls _).bind
    intro id
    exact make rfl nofun
  apply (accept (by decide)).bind
  intro held
  apply ite
  · apply peek.bind
    intro letter
    apply (ite (namedScopes calls isGlobal) (typeScope calls)).bind
    intro scope
    apply (calls _).bind
    intro id
    exact make rfl nofun
  · apply (calls _).bind
    intro base
    exact ite (make rfl nofun) (pure base)

theorem unresolvedType : OnCourse symbol (Parse.unresolvedType call) := by
  apply peek.bind
  intro letter
  split
  · apply templateParam.bind
    intro param
    apply (enlist param).seq
    exact pure param
  · apply (calls .decltype).bind
    intro type
    apply (enlist type).seq
    exact pure type
  · exact calls _

theorem baseUnresolvedName : OnCourse symbol (Parse.baseUnresolvedName call) := by
  apply peek.bind
  intro letter
  apply ite (simpleId calls)
  apply (accept (by decide)).bind
  intro held
  apply ite
  · apply peek.bind
    intro letter
    apply (ite (simpleId calls) (calls _)).bind
    intro id
    exact make rfl nofun
  · apply (discard (accept (by decide))).seq
    apply (calls _).bind
    intro name
    exact instantiateIfArgs calls name

end OnCourse
end Unmangle
