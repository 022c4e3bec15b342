import Unmangle.Grammar.Expression
import Unmangle.Proofs.Extension.Name

/-!
# Expressions with more behind them
-/
namespace Unmangle

theorem WordForm.blind (first : Char) : Blind (ofLetters? first) := by
  constructor
  all_goals
    unfold ofLetters?
    split <;> simp_all

theorem WordForm.second_ne_nul {first second : Char} {form : WordForm}
    (announced : ofLetters? first second = some form) : second ≠ '\x00' := by
  unfold ofLetters? at announced
  split at announced <;> first | decide | cases announced

theorem InitializerForm.blind (first : Char) : Blind (ofLetters? first) := by
  constructor
  all_goals
    unfold ofLetters?
    split <;> simp_all

theorem InitializerForm.second_ne_nul {first second : Char} {form : InitializerForm}
    (announced : ofLetters? first second = some form) : second ≠ '\x00' := by
  unfold ofLetters? at announced
  split at announced <;> first | decide | cases announced

theorem Parse.ne_nul_of_foldSide? {letter : Char} {side : Bool × Bool}
    (announced : foldSide? letter = some side) : letter ≠ '\x00' := by
  unfold foldSide? at announced
  split at announced <;> first | decide | cases announced

namespace Parse.Extends

variable {tail : List UInt8} (suffix : Suffix tail)
include suffix

theorem numbered : Extends tail .never Parse.functionParam.numbered Parse.functionParam.numbered
    fun _ => .never := by
  apply (qualifiers suffix fun _ => Rests.never.barred).discard.seq
  apply (number suffix false).bind
  intro number
  apply (expected "_").seq
  exact make _

theorem functionParam :
    Extends tail .never Parse.functionParam Parse.functionParam fun _ => .never := by
  apply accept_bind suffix (by decide) fun _ => Rests.never.barred
  · exact makeName _
  apply accept_bind suffix (by decide) fun _ => Rests.never.barred
  · exact numbered suffix
  apply accept_bind suffix (by decide) fun _ => Rests.never.barred
  · apply (number suffix false).bind
    intro level
    apply ensure_bind fun _ => Fails.unexpected
    apply (expected "p").seq
    exact numbered suffix
  · exact unexpected

theorem packSize : Extends tail .never Parse.packSize Parse.packSize fun _ => .never := by
  apply peek_bind suffix ⟨rfl, rfl⟩
  intro char
  split
  · apply (templateParam suffix fun _ => Rests.never.barred).bind
    intro param
    exact make _
  · apply (functionParam suffix).bind
    intro param
    exact make _
  · exact unexpected

variable {call : Calls} (reads : ReadsBefore tail call)
include reads

theorem fold : Extends tail .never (Parse.fold call) (Parse.fold call) fun _ => Stranded := by
  apply (expected "f").bind
  intro _ s
  apply ExtendsFrom.peekAt_bind suffix (Nat.zero_le _) ⟨rfl, rfl⟩
  cases announced : foldSide? (s.cursor.peekAt 0) with
  | none => exact .of_fails Fails.unexpected
  | some side =>
    apply ExtendsFrom.advance_one rfl (ne_nul_of_foldSide? announced)
    apply peekPair_bind suffix
    · intro first
      obtain ⟨nul, dot, bar⟩ := Operator.find?_blind first
      constructor
      · dsimp only
        rw [nul, dot]
      · dsimp only
        rw [nul, bar]
    · exact fun _ _ => Fails.unexpected
    · intro u some
      dsimp only
      cases found : Operator.find? (u.cursor.peekAt 0) (u.cursor.peekAt 1) with
      | none => exact .of_fails Fails.unexpected
      | some operator =>
        apply ExtendsFrom.ensure_bind fun _ => Fails.throw _
        intro _
        apply ExtendsFrom.advance_two rfl (Operator.second_of_find? found)
        apply (reads.extends_never .expression nofun).bind
        intro first
        apply Extends.bind (B := fun _ => Stranded)
        · apply ite
          · exact fun _ => (reads.rule (fun _ => Stranded.barred) .expression nofun).map
          · exact fun _ => pure fun _ => id
        intro second
        split
        · exact make _
        · exact make _

/-- Expressions up to their end. -/
theorem expressions : Extends tail Barred (Parse.nodesUntil "E" (call .expression))
    (Parse.nodesUntil "E" (call .expression)) fun _ => .never :=
  nodesUntil suffix (by decide) (reads.rule (fun _ => id) .expression nofun)

theorem initializers : Extends tail Stranded (Parse.initializers call) (Parse.initializers call)
    fun _ => .never := by
  apply accept_bind suffix (by decide) fun _ => Stranded.barred
  · exact (expressions suffix reads).narrow fun _ => Rests.never.barred
  · apply (expect suffix (by decide) fun _ => Stranded.barred).seq
    exact pure fun _ => id

theorem new (isGlobal isArray : Bool) : Extends tail .never (Parse.new call isGlobal isArray)
    (Parse.new call isGlobal isArray) fun _ => Stranded := by
  have expression := reads.rule (A := Barred) (fun _ => id) .expression nofun
  apply ((nodesUntilBar expression).narrow fun _ h => h.elim).bind
  intro placement
  apply (reads.rule (fun _ => Underscored.barred) .type nofun).bind
  intro type
  apply (initializers suffix reads).bind
  intro inits
  apply (makeList placement).bind
  intro placed
  apply (makeList inits).bind
  intro list
  exact (make _).always

theorem conversionOperands : Extends tail Stranded (Parse.conversionOperands call)
    (Parse.conversionOperands call) fun _ => Stranded := by
  apply acceptBar_bind fun _ => Stranded.eats
  · exact ((expressions suffix reads).narrow fun _ => Underscored.barred).always
  · apply (reads.rule (fun _ => Barred.of_nil) .expression nofun).bind
    intro operand
    exact pure fun _ => id

theorem conversion : Extends tail .never (Parse.conversion call) (Parse.conversion call)
    fun _ => Stranded := by
  apply known_bind fun _ => rfl
  intro state
  refine modify_bind (fun _ => rfl) (fun _ => rfl) ?_
  apply Extends.bind (B := fun _ => Stranded)
  · exact (reads.extends_never .type nofun).thenAlways (fun _ => rfl) fun _ => rfl
  intro type
  apply (conversionOperands suffix reads).bind
  intro operands
  apply (makeList operands).bind
  intro list
  exact make _

theorem operation (operator : Operator) (isGlobal : Bool) : Extends tail .never
    (Parse.operation call operator isGlobal) (Parse.operation call operator isGlobal)
      fun _ => Stranded := by
  have first (rule : Rule) (other : rule ≠ .symbol) := reads.extends_never rule other
  have next := reads.rule (A := Stranded) (fun _ => Stranded.barred) .expression nofun
  unfold Parse.operation
  cases operator.form with
  | binary | subscript | member =>
    apply (first .expression nofun).bind
    intro left
    apply next.bind
    intro right
    exact make _
  | leading | delete | ofExpression =>
    apply (first .expression nofun).bind
    intro operand
    exact make _
  | trailing =>
    apply acceptBar_bind fun _ => Rests.never.eats
    · apply (first .expression nofun).bind
      intro operand
      exact make _
    · apply (reads.rule (fun _ => Barred.of_nil) .expression nofun).bind
      intro operand
      exact make _
  | new isArray => exact new suffix reads isGlobal isArray
  | call =>
    apply (first .expression nofun).bind
    intro callee
    apply ((expressions suffix reads).narrow fun _ => Stranded.barred).bind
    intro args
    apply (makeList args).bind
    intro list
    exact (make _).always
  | cast => exact conversion suffix reads
  | conditional =>
    apply (first .expression nofun).bind
    intro condition
    apply next.bind
    intro yes
    apply next.bind
    intro no
    exact make _
  | namedCast =>
    apply (first .type nofun).bind
    intro type
    apply next.bind
    intro operand
    exact make _
  | ofType =>
    apply (first .type nofun).bind
    intro type
    exact make _

theorem bracedList : Extends tail Stranded (Parse.bracedList call) (Parse.bracedList call)
    fun _ => .never := by
  have item := reads.rule (A := Barred) (fun _ => id) .bracedExpression nofun
  apply ((nodesUntil suffix (by decide) item).narrow fun _ => Stranded.barred).bind
  intro items
  exact makeList items

theorem behindWord (form : WordForm) : Extends tail .never (Parse.behindWord call form)
    (Parse.behindWord call form) fun _ => Stranded := by
  cases form with
  | initList =>
    apply ((bracedList suffix reads).narrow fun _ h => h.elim).bind
    intro items
    exact (make _).always
  | typedInitList =>
    apply (reads.extends_never .type nofun).bind
    intro type
    apply (bracedList suffix reads).bind
    intro items
    exact (make _).always
  | throw | noexcept | expansion =>
    apply (reads.extends_never .expression nofun).bind
    intro operand
    exact make _
  | rethrow => exact (makeName _).always
  | packSize => exact (packSize suffix).always
  | elementCount =>
    have item := reads.rule (A := Barred) (fun _ => id) .templateArg nofun
    apply ((nodesUntil suffix (by decide) item).narrow fun _ => Rests.never.barred).bind
    intro args
    apply (makeList args).bind
    intro list
    apply (make _).bind
    intro pack
    exact (make _).always

theorem wordExpression (isGlobal : Bool) : Extends tail .never
    (Parse.wordExpression call isGlobal) (Parse.wordExpression call isGlobal)
      fun _ => Stranded := by
  apply peekPair_bind suffix
  · intro first
    obtain ⟨dot, bar⟩ := WordForm.blind first
    constructor
    · dsimp only
      rw [dot]
    · dsimp only
      rw [bar]
  · exact fun s left => reads.fails _ _ nofun (.of_nil left)
  · intro s some
    dsimp only
    cases announced : WordForm.ofLetters? (s.cursor.peekAt 0) (s.cursor.peekAt 1) with
    | none => exact reads.extends_never (.unresolvedName isGlobal) nofun s
    | some form =>
      apply ExtendsFrom.advance_two rfl (WordForm.second_ne_nul announced)
      exact behindWord suffix reads form

theorem expression : Extends tail .never (Parse.expression call) (Parse.expression call)
    fun _ => Stranded := by
  apply (accepted suffix (by decide) fun _ => Rests.never.barred).bind
  intro isGlobal
  apply get_bind
  -- with fewer than two bytes there is no expression, so no look goes beyond the first of a suffix
  rintro ⟨⟨offset, _ | ⟨first, _ | ⟨second, rest⟩⟩⟩, level, work, facts, args, ahead, lambda⟩
  · exact .of_fails (Fails.bind (Fails.throw _))
  · exact .of_fails (Fails.bind (Fails.throw _))
  apply ExtendsFrom.ensure_bind fun _ => Fails.throw _
  intro _
  apply ExtendsFrom.peekPair_bind suffix (List.cons_ne_nil _ _)
  · intro first
    obtain ⟨nul, dot, bar⟩ := Operator.find?_blind first
    constructor
    · dsimp only
      rw [nul, dot]
      split <;> rfl
    · dsimp only
      rw [nul, bar]
      split <;> rfl
  dsimp only
  split
  · exact reads.extends_never .literal nofun _
  · exact (templateParam suffix fun _ => Rests.never.barred).always _
  · apply ExtendsFrom.peekAt_bind suffix (by simp) ⟨rfl, rfl⟩
    apply from_never
    apply ite
    · exact fun _ => (functionParam suffix).always
    · exact fun _ => fold suffix reads
  · split
    · rename_i operator found
      apply ExtendsFrom.advance_two rfl (Operator.second_of_find? found)
      exact operation suffix reads operator isGlobal
    · exact wordExpression suffix reads isGlobal _

theorem initializer (form : InitializerForm) : Extends tail .never (Parse.initializer call form)
    (Parse.initializer call form) fun _ => Stranded := by
  have braced := reads.rule (A := Stranded) (fun _ => Stranded.barred) .bracedExpression nofun
  cases form with
  | field =>
    apply ((sourceName suffix).narrow fun _ => Rests.never.barred).bind
    intro field
    apply (reads.extends_never .bracedExpression nofun).bind
    intro value
    exact make _
  | element =>
    apply (reads.extends_never .expression nofun).bind
    intro index
    apply braced.bind
    intro value
    exact make _
  | range =>
    apply (reads.extends_never .expression nofun).bind
    intro first
    apply (reads.rule (fun _ => Stranded.barred) .expression nofun).bind
    intro last
    apply braced.bind
    intro value
    exact make _

theorem bracedExpression : Extends tail .never (Parse.bracedExpression call)
    (Parse.bracedExpression call) fun _ => Stranded := by
  apply peekPair_bind suffix
  · intro first
    obtain ⟨dot, bar⟩ := InitializerForm.blind first
    constructor
    · dsimp only
      rw [dot]
    · dsimp only
      rw [bar]
  · exact fun s left => reads.fails _ _ nofun (.of_nil left)
  · intro s some
    dsimp only
    cases announced : InitializerForm.ofLetters? (s.cursor.peekAt 0) (s.cursor.peekAt 1) with
    | none => exact reads.extends_never .expression nofun s
    | some form =>
      apply ExtendsFrom.advance_two rfl (InitializerForm.second_ne_nul announced)
      exact initializer suffix reads form

theorem simpleId : Extends tail Barred (Parse.simpleId call) (Parse.simpleId call)
    fun _ => Stranded := by
  apply (sourceName suffix).bind
  intro name
  exact (instantiateIfArgs suffix reads name).narrow fun _ h => h.elim

theorem simpleIds (scope : NodeId) : Extends tail Stranded (Parse.simpleIds call scope)
    (Parse.simpleIds call scope) fun _ => .never := by
  apply untilHolds (accept suffix (by decide) fun _ => Stranded.barred)
  · exact fun _ _ h => nomatch h.1
  intro scope
  apply ((simpleId suffix reads).narrow fun _ h => h.2.barred).bind
  intro part
  exact make _

theorem namedScopes (isGlobal : Bool) : Extends tail .never (Parse.namedScopes call isGlobal)
    (Parse.namedScopes call isGlobal) fun _ => .never := by
  apply ((simpleId suffix reads).narrow fun _ => Rests.never.barred).bind
  intro outermost
  apply Extends.bind (B := fun _ => Stranded)
  · exact ite (fun _ => make _) fun _ => pure fun _ => id
  intro scope
  exact simpleIds suffix reads scope

theorem typeScope : Extends tail .never (Parse.typeScope call) (Parse.typeScope call)
    fun _ => Stranded := by
  apply (reads.extends_never .unresolvedType nofun).bind
  intro type
  exact instantiateIfArgs suffix reads type

theorem unresolvedName (isGlobal : Bool) : Extends tail .never
    (Parse.unresolvedName call isGlobal) (Parse.unresolvedName call isGlobal)
      fun _ => Stranded := by
  apply accept_bind suffix (by decide) fun _ => Rests.never.barred
  · apply (typeScope suffix reads).bind
    intro type
    apply (simpleIds suffix reads type).bind
    intro scope
    apply (reads.extends_never .baseUnresolvedName nofun).bind
    intro base
    exact make _
  apply accept_bind suffix (by decide) fun _ => Rests.never.barred
  · apply peek_bind suffix ⟨rfl, rfl⟩
    intro char
    apply Extends.bind (B := fun _ => Stranded)
    · apply ite
      · exact fun _ => (namedScopes suffix reads isGlobal).always
      · exact fun _ => typeScope suffix reads
    intro scope
    apply (reads.rule (fun _ => Stranded.barred) .baseUnresolvedName nofun).bind
    intro base
    exact make _
  · apply (reads.extends_never .baseUnresolvedName nofun).bind
    intro base
    exact ite (fun _ => make _) fun _ => pure fun _ => id

theorem unresolvedType : Extends tail .never (Parse.unresolvedType call)
    (Parse.unresolvedType call) fun _ => Stranded := by
  apply peek_bind suffix ⟨rfl, rfl⟩
  intro char
  split
  · apply (templateParam suffix fun _ => Rests.never.barred).bind
    intro param
    apply (enlist param).seq
    exact pure fun _ h => h.elim
  · apply (reads.extends_never .decltype nofun).bind
    intro type
    apply (enlist type).seq
    exact pure fun _ => id
  · exact reads.extends_never .substitution nofun

theorem baseUnresolvedName : Extends tail .never (Parse.baseUnresolvedName call)
    (Parse.baseUnresolvedName call) fun _ => Stranded := by
  have simple : Extends tail .never (Parse.simpleId call) (Parse.simpleId call) fun _ => Stranded :=
    (simpleId suffix reads).narrow fun _ => Rests.never.barred
  apply peek_bind suffix ⟨rfl, rfl⟩
  intro char
  apply ite
  · exact fun _ => simple
  intro _
  apply accept_bind suffix (by decide) fun _ => Rests.never.barred
  · apply peek_bind suffix ⟨rfl, rfl⟩
    intro char
    apply Extends.bind (B := fun _ => Stranded)
    · exact ite (fun _ => simple) fun _ => reads.extends_never .unresolvedType nofun
    intro type
    exact make _
  · apply (accepted suffix (by decide) fun _ => Rests.never.barred).discard.seq
    apply (reads.extends_never (.operatorName false) nofun).bind
    intro operator
    exact instantiateIfArgs suffix reads operator

end Parse.Extends
end Unmangle
