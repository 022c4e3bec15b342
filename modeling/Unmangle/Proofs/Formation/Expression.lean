import Unmangle.Grammar.Expression
import Unmangle.Grammar.Literal
import Unmangle.Proofs.Formation.Name

/-!
# Well-formed expressions and literals

The words of an operator are its own, and a number in a literal has a digit.
-/
namespace Unmangle

theorem Builtin.plain_of_literalType? {char : Char} {type : Builtin.LiteralType}
    (found : Builtin.literalType? char = some type) :
    (∀ words, type = .cast words → Plain words) ∧ ∀ words, type = .suffix words → Plain words := by
  unfold Builtin.literalType? at found
  split at found <;> cases found <;>
    exact ⟨fun _ same => by cases same; try decide, fun _ same => by cases same; try decide⟩

/-- The letters of a destructor are looked at as they are moved over. -/
theorem Cursor.peekAt_of_destructor {cursor after : Cursor}
    (h : cursor.strip? "dn".toList = some after) :
    cursor.peekAt 0 = 'd' ∧ cursor.peekAt 1 = 'n' ∧ cursor.peekAt 2 = after.peekAt 0 := by
  obtain ⟨offset, _ | ⟨first, _ | ⟨second, rest⟩⟩⟩ := cursor
  · cases h
  · rw [show "dn".toList = ['d', 'n'] from rfl, strip?] at h
    split at h <;> cases h
  · rw [show "dn".toList = ['d', 'n'] from rfl, strip?] at h
    split at h
    · rename_i first
      rw [strip?] at h
      split at h
      · rename_i second
        cases h
        simp only [peekAt, List.getElem?_cons_zero, List.getElem?_cons_succ, first, second]
        exact ⟨rfl, rfl, trivial⟩
      · cases h
    · cases h

variable {symbol : ByteArray} {regular : Prop} {call : Calls} {s : ParseState}

namespace KeepsForm

theorem functionParam : KeepsForm symbol regular Parse.functionParam := by
  have numbered : KeepsForm symbol regular Parse.functionParam.numbered := by
    apply (discard qualifiers).bind
    intro _ s
    apply (Forms.number false).bind
    intro number t _ read
    apply (Forms.expect "_").bind
    intro _ u _ _
    exact Forms.keeps (Forms.make read.2.1)
  apply (accept "fpT").bind
  intro held
  refine ite (makeName ⟨by decide, by decide⟩) ?_
  apply (accept "fp").bind
  intro held
  apply ite numbered
  apply (accept "fL").bind
  intro held
  refine ite ?_ unexpected
  apply (number false).bind
  intro digits
  apply (ensure unexpected).seq
  apply (expect "p").seq
  exact numbered

theorem packSize : KeepsForm symbol regular Parse.packSize := by
  apply peek.bind
  intro letter
  split
  · apply templateParam.bind
    intro param
    exact make fun _ => trivial
  · apply functionParam.bind
    intro param
    exact make fun _ => (by decide : Plain "sizeof... ")
  · exact unexpected

end KeepsForm

namespace Forms

theorem literalNumber :
    Forms symbol regular Parse.literalNumber s fun text _ => text.Numeral symbol := by
  apply (number true).bind
  intro text t _ read
  refine .ensure_bind unexpected ?_
  intro some
  apply bind (KeepsForm.expect "E" t)
  intro _ _ _ _
  refine .pure (read.2.2.1 ?_)
  exact Bool.not_eq_true' _ |>.mp some

end Forms

namespace KeepsForm

theorem floatLiteral (format : FloatFormat) :
    KeepsForm symbol regular (Parse.floatLiteral format) := by
  intro s formed
  refine Forms.get_bind (Forms.orFault_bind fun behind hbehind => ?_) formed
  obtain ⟨fits, rfl⟩ := (Cursor.take?_eq_some_iff _ _ _).mp hbehind
  apply Forms.ensure_bind (.throw _)
  intro _
  refine Forms.bind (Q := fun _ _ => True) (fun formed => .modified ?_) fun _ t _ _ => ?_
  · exact ⟨formed.of_tree_eq (formed.ground.skip fits) rfl, .refl _, trivial⟩
  · apply (expect "E" t).next
    intro _
    exact make fun _ => trivial

section Calls

variable (calls : FormsAll symbol regular call)
include calls

theorem fold : KeepsForm symbol regular (Parse.fold call) := by
  apply (expect "f").seq
  apply peek.bind
  intro letter
  cases Parse.foldSide? letter with
  | none => exact unexpected
  | some side =>
    apply (advance 1).seq
    apply peekPair.bind
    intro letters
    dsimp only
    cases found : Operator.find? letters.1 letters.2 with
    | none => exact unexpected
    | some operator =>
      have plain := (Operator.plain found).1
      apply (ensure (throw _)).seq
      apply (advance 2).seq
      apply (of_all calls .expression).bind
      intro first
      apply bind
      · exact ite (map (of_all calls .expression)) (pure none)
      intro second
      split
      · exact make fun _ => plain
      · exact make fun _ => plain

theorem initializers : KeepsForm symbol regular (Parse.initializers call) := by
  apply (accept "pi").bind
  intro held
  apply ite (nodesUntil "E" (of_all calls .expression))
  apply (expect "E").seq
  exact pure #[]

theorem new (isGlobal isArray : Bool) : KeepsForm symbol regular (Parse.new call isGlobal isArray) := by
  apply (nodesUntil "_" (of_all calls .expression)).bind
  intro placement
  apply (of_all calls .type).bind
  intro type
  apply (initializers calls).bind
  intro inits
  apply (makeList placement).bind
  intro list
  apply (makeList inits).bind
  intro list
  exact make fun _ => trivial

theorem conversionOperands : KeepsForm symbol regular (Parse.conversionOperands call) := by
  apply (accept "_").bind
  intro held
  apply ite (nodesUntil "E" (of_all calls .expression))
  apply (of_all calls .expression).bind
  intro id
  exact pure #[id]

theorem conversion : KeepsForm symbol regular (Parse.conversion call) := by
  apply get_bind
  intro before
  refine bind (modified ⟨fun _ => rfl, fun _ => rfl⟩) ?_
  intro _
  refine bind (thenAlways ⟨fun _ => rfl, fun _ => rfl⟩ (of_all calls .type)) ?_
  intro type
  apply (conversionOperands calls).bind
  intro operands
  apply (makeList operands).bind
  intro list
  exact make fun _ => trivial

/-- An operator keeps the form if its symbol is plain. -/
theorem operation {operator : Operator} (plain : Plain operator.symbol) (isGlobal : Bool) :
    KeepsForm symbol regular (Parse.operation call operator isGlobal) := by
  have call (rule : Rule) : KeepsForm symbol regular (call rule) := of_all calls rule
  unfold Parse.operation
  cases operator.form with
  | binary | member | namedCast =>
    apply (call _).bind
    intro left
    apply (call _).bind
    intro right
    exact make fun _ => plain
  | subscript =>
    apply (call .expression).bind
    intro base
    apply (call .expression).bind
    intro index
    exact make fun _ => trivial
  | leading | ofType | ofExpression =>
    apply (call _).bind
    intro operand
    exact make fun _ => plain
  | trailing =>
    apply (accept "_").bind
    intro isLeading
    apply ite
    · apply (call .expression).bind
      intro operand
      exact make fun _ => plain
    · apply (call .expression).bind
      intro operand
      exact make fun _ => plain
  | new isArray => exact new calls isGlobal isArray
  | delete isArray =>
    apply (call .expression).bind
    intro operand
    exact make fun _ => trivial
  | call =>
    apply (call .expression).bind
    intro callee
    apply (nodesUntil "E" (call .expression)).bind
    intro args
    apply (makeList args).bind
    intro list
    exact make fun _ => trivial
  | cast => exact conversion calls
  | conditional =>
    apply (call .expression).bind
    intro condition
    apply (call .expression).bind
    intro yes
    apply (call .expression).bind
    intro no
    exact make fun _ => trivial

theorem bracedList : KeepsForm symbol regular (Parse.bracedList call) :=
  (nodesUntil "E" (of_all calls .bracedExpression)).bind makeList

theorem behindWord (form : WordForm) : KeepsForm symbol regular (Parse.behindWord call form) := by
  have call (rule : Rule) : KeepsForm symbol regular (call rule) := of_all calls rule
  cases form with
  | initList =>
    apply (bracedList calls).bind
    intro list
    exact make fun _ => trivial
  | typedInitList =>
    apply (call .type).bind
    intro type
    apply (bracedList calls).bind
    intro list
    exact make fun _ => trivial
  | throw | expansion =>
    apply (call .expression).bind
    intro operand
    exact make fun _ => trivial
  | rethrow => exact makeName ⟨by decide, by decide⟩
  | noexcept =>
    apply (call .expression).bind
    intro operand
    exact make fun _ => (by decide : Plain "noexcept ")
  | packSize => exact packSize
  | elementCount =>
    apply (nodesUntil "E" (call .templateArg)).bind
    intro args
    apply (makeList args).bind
    intro list
    apply bind
    · exact make fun _ => trivial
    intro pack
    exact make fun _ => (by decide : Plain "sizeof... ")

theorem wordExpression (isGlobal : Bool) :
    KeepsForm symbol regular (Parse.wordExpression call isGlobal) := by
  apply peekPair.bind
  intro letters
  dsimp only
  cases WordForm.ofLetters? letters.1 letters.2 with
  | none => exact of_all calls _
  | some form =>
    apply (advance 2).seq
    exact behindWord calls form

theorem expression : KeepsForm symbol regular (Parse.expression call) := by
  apply (accept "gs").bind
  intro isGlobal
  apply get_bind
  intro _
  apply (ensure (throw _)).seq
  apply peekPair.bind
  intro pair
  dsimp only
  split
  · exact of_all calls .literal
  · exact templateParam
  · apply (peekAt 2).bind
    intro letter
    exact ite functionParam (fold calls)
  · split
    · rename_i operator found
      apply (advance 2).seq
      exact operation calls (Operator.plain found).1 isGlobal
    · exact wordExpression calls isGlobal

theorem initializer (form : InitializerForm) :
    KeepsForm symbol regular (Parse.initializer call form) := by
  have call (rule : Rule) : KeepsForm symbol regular (call rule) := of_all calls rule
  cases form with
  | field =>
    apply sourceName.bind
    intro field
    apply (call .bracedExpression).bind
    intro value
    exact make fun _ => trivial
  | element =>
    apply (call .expression).bind
    intro index
    apply (call .bracedExpression).bind
    intro value
    exact make fun _ => trivial
  | range =>
    apply (call .expression).bind
    intro first
    apply (call .expression).bind
    intro last
    apply (call .bracedExpression).bind
    intro value
    exact make fun _ => trivial

theorem bracedExpression : KeepsForm symbol regular (Parse.bracedExpression call) := by
  apply peekPair.bind
  intro letters
  dsimp only
  cases InitializerForm.ofLetters? letters.1 letters.2 with
  | none => exact of_all calls _
  | some form =>
    apply (advance 2).seq
    exact initializer calls form

theorem simpleId : KeepsForm symbol regular (Parse.simpleId call) := by
  apply sourceName.bind
  intro name
  exact instantiateIfArgs calls name

theorem simpleIds (scope : NodeId) : KeepsForm symbol regular (Parse.simpleIds call scope) := by
  refine untilHolds (accept "E") (fun scope => ?_) scope
  apply (simpleId calls).bind
  intro name
  exact make fun _ => trivial

theorem namedScopes (isGlobal : Bool) :
    KeepsForm symbol regular (Parse.namedScopes call isGlobal) := by
  apply (simpleId calls).bind
  intro outermost
  apply bind
  · exact ite (make fun _ => trivial) (pure outermost)
  intro scope
  exact simpleIds calls scope

theorem typeScope : KeepsForm symbol regular (Parse.typeScope call) := by
  apply (of_all calls _).bind
  intro type
  exact instantiateIfArgs calls type

theorem unresolvedName (isGlobal : Bool) :
    KeepsForm symbol regular (Parse.unresolvedName call isGlobal) := by
  apply (accept "srN").bind
  intro held
  apply ite
  · apply (typeScope calls).bind
    intro type
    apply (simpleIds calls type).bind
    intro name
    apply (of_all calls _).bind
    intro id
    exact make fun _ => trivial
  apply (accept "sr").bind
  intro held
  apply ite
  · apply peek.bind
    intro letter
    apply (ite (namedScopes calls isGlobal) (typeScope calls)).bind
    intro scope
    apply (of_all calls _).bind
    intro id
    exact make fun _ => trivial
  · apply (of_all calls _).bind
    intro base
    exact ite (make fun _ => trivial) (pure base)

theorem unresolvedType : KeepsForm symbol regular (Parse.unresolvedType call) := by
  apply peek.bind
  intro letter
  split
  · apply templateParam.bind
    intro param
    apply (enlist param).seq
    exact pure param
  · apply (of_all calls .decltype).bind
    intro type
    apply (enlist type).seq
    exact pure type
  · exact of_all calls _

theorem enumerator : KeepsForm symbol regular (Parse.enumerator call) := by
  apply (of_all calls .type).bind
  intro type s
  apply Forms.literalNumber.bind
  intro value _ _ numeral
  exact Forms.keeps (Forms.make numeral)

theorem literal : KeepsForm symbol regular (Parse.literal call) := by
  apply (expect "L").seq
  apply peekPair.bind
  intro pair
  dsimp only
  split
  · rename_i type found
    obtain ⟨cast, suffix⟩ := Builtin.plain_of_literalType? found
    apply (advance 1).bind
    intro _ s
    apply Forms.literalNumber.bind
    intro value t _ numeral
    refine Forms.keeps (Forms.make ?_)
    cases type with
    | cast words => exact ⟨cast words rfl, numeral⟩
    | suffix words => exact ⟨suffix words rfl, numeral⟩
  · split
    · apply (accept "b0E").bind
      intro held
      refine ite (make fun _ => trivial) ?_
      apply (accept "b1E").bind
      intro held
      exact ite (make fun _ => trivial) unexpected
    · apply (expect "_Z").seq
      apply (of_all calls .encoding).bind
      intro encoding
      apply (expect "E").seq
      exact pure encoding
    · apply (of_all calls .type).bind
      intro type
      apply (expect "E").seq
      exact make fun _ => trivial
    · apply (accept "DnE").bind
      intro held
      apply ite (makeName ⟨by decide, by decide⟩)
      apply (accept "Dn0E").bind
      intro held
      exact ite (makeName ⟨by decide, by decide⟩) (enumerator calls)
    · exact throw _
    · split
      · apply (advance 1).seq
        exact floatLiteral _
      · refine ite (bind (fun _ => (Forms.unnamedTypeName calls).keeps) fun _ => ?_)
          (enumerator calls)
        apply (expect "E").seq
        exact make fun _ => trivial

end Calls

end KeepsForm

namespace Forms

variable (calls : FormsAll symbol regular call)
include calls

/-- An identifier stands for itself, also with arguments. -/
theorem simpleId :
    Forms symbol regular (Parse.simpleId call) s fun id t => t.work.tree.Holds .single id := by
  apply sourceName.bind
  intro name t _ part
  refine .peek_bind (.ite (fun _ => ?_) fun _ => ?_)
  · apply (calls (.templateArgs false) t).bind
    intro args u _ listed
    apply (learn _ _).bind
    intro _ v stays _
    exact make_shape .single rfl (listed.stays stays)
  · exact .pure part.single

/-- Where the symbol is regular a destructor is named by an identifier. -/
theorem baseUnresolvedName (reg : regular → ¬Rule.Irregular .baseUnresolvedName s.cursor) :
    Forms symbol regular (Parse.baseUnresolvedName call) s fun _ _ => True := by
  refine .peek_bind (.ite (fun _ => (KeepsForm.simpleId calls) s) fun _ => ?_)
  apply (accept "dn").bind
  intro taken t _ moved
  refine .ite (fun destructor => .peek_bind ?_) fun _ => ?_
  · refine bind (Q := fun id t => regular → t.work.tree.Holds .single id)
      (.ite (fun _ => ?_) fun other => ?_)
      fun id u _ single => keeps (make single)
    · exact (simpleId calls).weaken fun _ _ _ single _ => single
    · refine weaken (calls .unresolvedType t) ?_
      intro _ _ _ _ known
      refine absurd ?_ (reg known)
      obtain ⟨first, second, third⟩ := Cursor.peekAt_of_destructor (moved.2.1 destructor)
      exact ⟨first, second, by rw [third]; exact Bool.eq_false_iff.mpr other⟩
  · apply (KeepsForm.discard (.accept "on") t).next
    intro _
    apply (KeepsForm.of_all calls _).bind
    intro name
    exact .instantiateIfArgs calls name

end Forms
end Unmangle
