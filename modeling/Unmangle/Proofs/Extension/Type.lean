import Unmangle.Grammar.Type
import Unmangle.Grammar.Literal
import Unmangle.Proofs.Extension.Name

/-!
# Types and literals with more behind them
-/
namespace Unmangle

theorem TypeKind.blind (first : Char) : Blind (ofLetters first) := by
  constructor
  all_goals
    unfold ofLetters
    split
    · rfl
    · split <;> rfl

theorem TypeKind.Begins.ne_symbol {first second : Char} {rule : Rule}
    (begins : Begins first second (listed rule)) : rule ≠ .symbol := by
  rintro rfl
  obtain ⟨-, ⟨⟩⟩ | known := begins
  exact absurd known (by decide)

theorem TypeKind.Begins.leaves {first second : Char} {rule : Rule}
    (begins : Begins first second (listed rule)) : rule.leaves = Stranded := by
  obtain ⟨-, rfl⟩ | known := begins
  · rfl
  · have each : ∀ rule ∈ rules, rule.leaves = Stranded := by
      simp [rules, Rule.leaves]
    exact each rule known

namespace Parse

variable {tail : List UInt8} {A B : Rests} {p : Parse NodeId}

theorem ExtendsFrom.listing {s : ParseState} {doomed : Prop}
    (h : ExtendsFrom tail s doomed p p fun _ => B) :
    ExtendsFrom tail s doomed (Parse.listing p) (Parse.listing p) fun _ => B := by
  apply h.bind
  intro id t _
  apply (Extends.enlist id t).bind
  intro _ u _
  exact .pure fun h => h

namespace Extends

theorem listing (h : Extends tail A p p fun _ => B) :
    Extends tail A (Parse.listing p) (Parse.listing p) fun _ => B :=
  fun s => (h s).listing

variable (suffix : Suffix tail)
include suffix

/-- No letter of a function type begins a suffix. -/
theorem qualifiesFunction : Extends tail .never Parse.qualifiesFunction Parse.qualifiesFunction
    fun _ => .never := by
  apply get_bind
  intro s
  have dot : isQualifier 46 = false := by decide
  have bar : isQualifier 95 = false := by decide
  have behind := suffix.spanWhile dot bar s.cursor
  simp only [ParseState.followed, behind]
  generalize (s.cursor.spanWhile isQualifier).2 = behind
  obtain ⟨offset, _ | ⟨first, _ | ⟨second, rest⟩⟩⟩ := behind
  · obtain ⟨byte, more, rfl, rfl | rfl⟩ := suffix.head
    · exact .pure id
    · exact .pure id
  -- with one letter left the second look is at the suffix, where none of the others stands
  · have beyond : (⟨offset, [first] ++ tail⟩ : Cursor).peekAt 1 = '.' ∨
        (⟨offset, [first] ++ tail⟩ : Cursor).peekAt 1 = '_' := by
      obtain ⟨byte, more, rfl, rfl | rfl⟩ := suffix.head
      · exact .inl rfl
      · exact .inr rfl
    have ended : (⟨offset, [first]⟩ : Cursor).peekAt 1 = '\x00' := rfl
    have same : (⟨offset, [first] ++ tail⟩ : Cursor).peekAt 0 =
      (⟨offset, [first]⟩ : Cursor).peekAt 0 := rfl
    simp only [ended, same]
    generalize (⟨offset, [first]⟩ : Cursor).peekAt 0 = letter
    have answer (answer : Bool) : ExtendsFrom tail s (Rests.never s.cursor.rest)
        (Pure.pure answer) (Pure.pure answer) fun _ => .never := .pure id
    rcases beyond with beyond | beyond
    all_goals
      rw [beyond]
      split <;> simp_all
  · simp only [Cursor.peekAt, List.cons_append, List.getElem?_cons_zero, List.getElem?_cons_succ]
    split <;> exact .pure id

theorem binaryFloat {s : ParseState} {second : Char} (look : s.cursor.peekAt 1 = second)
    (some : second ≠ '\x00') :
    ExtendsFrom tail s False Parse.binaryFloat Parse.binaryFloat fun _ => .never := by
  apply ExtendsFrom.advance_two look some
  apply (number suffix false).bind
  intro width
  apply ensure_bind fun _ => Fails.unexpected
  apply (expectBar fun _ => Rests.never.eats).seq
  exact make _

variable {call : Calls} (reads : ReadsBefore tail call)
include reads

theorem parameterType : Extends tail .never (Parse.parameterType call) (Parse.parameterType call)
    fun _ => Stranded := by
  apply (templateParam suffix fun _ => Rests.never.barred).bind
  intro param
  apply known_bind fun _ => rfl
  intro state
  apply peek_bind suffix ⟨rfl, rfl⟩
  intro char
  apply ite
  · intro _
    apply (enlist param).seq
    exact instantiate reads false param fun _ => Rests.never.barred
  · exact fun _ => pure fun _ h => h.elim

theorem substitutionType : Extends tail .never (Parse.substitutionType call)
    (Parse.substitutionType call) fun _ => Stranded := by
  apply (reads.extends_never .substitution nofun).bind
  intro listed
  apply known_bind fun _ => rfl
  intro state
  apply peek_bind suffix ⟨rfl, rfl⟩
  intro char
  apply ite
  · exact fun _ => listing (instantiate reads false listed fun _ => Stranded.barred)
  · exact fun _ => pure fun _ => id

omit suffix in
theorem wrappedType {s : ParseState} {first : Char} (look : s.cursor.peekAt 0 = first)
    (some : first ≠ '\x00') (wrap : NodeId → Node) : ExtendsFrom tail s False
      (Parse.listing (Parse.wrappedType call wrap)) (Parse.listing (Parse.wrappedType call wrap))
      fun _ => Stranded := by
  apply ExtendsFrom.listing
  apply ExtendsFrom.advance_one look some
  apply (reads.extends_never .type nofun).bind
  intro type
  exact make _

theorem type : Extends tail .never (Parse.type call) (Parse.type call) fun _ => Stranded := by
  apply peekPair_bind suffix
  · intro first
    obtain ⟨dot, bar⟩ := TypeKind.blind first
    constructor
    · dsimp only
      rw [dot]
    · dsimp only
      rw [bar]
  · exact fun s left => Fails.bind (reads.fails _ _ nofun (.of_nil left))
  · intro s some
    dsimp only
    have begins := TypeKind.begins_ofLetters (s.cursor.peekAt 0) (s.cursor.peekAt 1)
    cases kind : TypeKind.ofLetters (s.cursor.peekAt 0) (s.cursor.peekAt 1) with
      rw [kind] at begins
    | builtin words =>
      apply ExtendsFrom.advance_one rfl
      · intro nul
        rw [nul] at begins
        cases begins
      exact (makeName words).always
    | extended words =>
      apply ExtendsFrom.advance_two rfl
      · intro nul
        rw [nul] at begins
        cases begins.2
      exact (makeName words).always
    | listed rule =>
      have type := reads.extends_never rule (TypeKind.Begins.ne_symbol begins)
      rw [TypeKind.Begins.leaves begins] at type
      exact listing type s
    | qualified =>
      apply from_never
      apply listing
      apply (qualifiesFunction suffix).bind
      intro isFunction
      apply ite
      · exact fun _ => reads.extends_never .functionType nofun
      · exact fun _ => reads.extends_never .qualifiedType nofun
    | vendor =>
      apply ExtendsFrom.advance_one begins (by decide)
      apply listing
      apply ((identifier suffix).narrow fun _ => Rests.never.barred).bind
      intro name
      exact (make _).always
    | binaryFloat =>
      apply ExtendsFrom.listing
      exact (binaryFloat suffix begins.2 (by decide)).weaken id fun _ _ h => h.elim
    | expansion =>
      apply ExtendsFrom.advance_two begins.2 (by decide)
      apply listing
      apply (reads.extends_never .type nofun).bind
      intro type
      exact make _
    | parameter => exact listing (parameterType suffix reads) s
    | pointer => exact wrappedType reads begins (by decide) _
    | reference sort =>
      refine wrappedType reads rfl ?_ _
      intro nul
      have known : '\x00' ∈ ['R', 'O'] := nul ▸ begins
      exact absurd known (by decide)
    | trailing words =>
      refine wrappedType reads rfl ?_ _
      intro nul
      have known : '\x00' ∈ ['C', 'G'] := nul ▸ begins.1
      exact absurd known (by decide)
    | substitution => exact from_never (substitutionType suffix reads)
    | unknown => exact .of_fails Fails.unexpected

theorem qualifiedType : Extends tail .never (Parse.qualifiedType call)
    (Parse.qualifiedType call) fun _ => Stranded := by
  apply accept_bind suffix (by decide) fun _ => Rests.never.barred
  · apply ((identifier suffix).narrow fun _ => Rests.never.barred).bind
    intro extension
    apply (reads.extends_never .qualifiedType nofun).bind
    intro type
    exact make _
  · apply (qualifiers suffix fun _ => Rests.never.barred).bind
    intro quals
    apply (reads.extends_never .type nofun).bind
    intro type
    apply ite
    · exact fun _ => pure fun _ => id
    · exact fun _ => make _

/-- An exception specification ends with its own last byte, if there is one. -/
theorem exceptionSpec : Extends tail .never (Parse.exceptionSpec call)
    (Parse.exceptionSpec call) fun _ => .never := by
  apply accept_bind suffix (by decide) fun _ => Rests.never.barred
  · exact (makeName _).map
  apply accept_bind suffix (by decide) fun _ => Rests.never.barred
  · apply (reads.extends_never .expression nofun).bind
    intro condition
    apply (expect suffix (by decide) fun _ => Stranded.barred).seq
    exact (make _).map
  apply accept_bind suffix (by decide) fun _ => Rests.never.barred
  · apply ((nodesUntil suffix (by decide) (reads.rule (fun _ => id) .type nofun)).narrow
      fun _ => Rests.never.barred).bind
    intro types
    apply (makeList types).bind
    intro list
    exact (make _).map
  · exact pure fun _ => id

omit reads in
/-- The bytes that follow the symbol do not end a list of parameters. -/
theorem atParamsEnd : Extends tail Stranded Parse.atParamsEnd Parse.atParamsEnd
    fun held rest => held = false ∧ Stranded rest := by
  have looking {token : String} (plain : PlainToken token) : Extends tail Stranded
      (Parse.lookingAt token) (Parse.lookingAt token) fun held rest => held = false ∧ Stranded rest :=
    lookingAt suffix plain fun _ => Stranded.barred
  apply (looking (by decide)).bind
  intro held
  apply Extends.ite
  · rintro rfl
    exact pure fun _ h => nomatch h.1
  intro _
  apply Extends.narrow (A := Stranded)
  · apply (looking (by decide)).bind
    intro held
    apply Extends.ite
    · rintro rfl
      exact pure fun _ h => nomatch h.1
    · exact fun _ => (looking (by decide)).narrow fun _ h => h.2
  · exact fun _ h => h.2

theorem functionParams : Extends tail Stranded (Parse.functionParams call)
    (Parse.functionParams call) fun _ => .never := by
  apply untilHolds (atParamsEnd suffix)
  · exact fun _ _ h => nomatch h.1
  intro params
  apply Extends.narrow (A := Stranded)
  · apply accept_bind suffix (by decide) fun _ => Stranded.barred
    · exact pure fun _ h => h.elim
    · apply (reads.rule (fun _ => Stranded.barred) .type nofun).bind
      intro type
      exact pure fun _ => id
  · exact fun _ h => h.2

theorem functionType : Extends tail .never (Parse.functionType call)
    (Parse.functionType call) fun _ => Stranded := by
  apply (qualifiers suffix fun _ => Rests.never.barred).bind
  intro quals
  apply (exceptionSpec suffix reads).bind
  intro exception
  apply (accepted suffix (by decide) fun _ => Rests.never.barred).discard.seq
  apply (expect suffix (by decide) fun _ => Rests.never.barred).seq
  apply (accepted suffix (by decide) fun _ => Rests.never.barred).discard.seq
  apply (reads.extends_never .type nofun).bind
  intro result
  apply (functionParams suffix reads).bind
  intro params
  apply (refQualifier suffix fun _ => Rests.never.barred).bind
  intro ref
  apply (expect suffix (by decide) fun _ => Rests.never.barred).seq
  apply (makeList params).bind
  intro list
  exact (make _).always

omit suffix in
theorem computedDimension : Extends tail .never (Parse.computedDimension call)
    (Parse.computedDimension call) fun _ => Underscored := by
  apply acceptBar_bind fun _ => Rests.never.eats
  · exact pure fun _ h => h.elim
  apply (reads.rule (fun _ => Barred.of_nil) .expression nofun).bind
  intro size
  apply (expectBar fun _ => Stranded.eats).seq
  exact pure fun _ => id

theorem arrayDimension : Extends tail .never (Parse.arrayDimension call)
    (Parse.arrayDimension call) fun _ => Underscored := by
  apply peek_bind suffix ⟨rfl, rfl⟩
  intro char
  apply ite
  · intro _
    apply (number suffix false).bind
    intro number
    apply (expectBar fun _ => Rests.never.eats).seq
    exact (make _).always.map
  · exact fun _ => computedDimension reads

theorem arrayType : Extends tail .never (Parse.arrayType call) (Parse.arrayType call)
    fun _ => Stranded := by
  apply (expect suffix (by decide) fun _ => Rests.never.barred).seq
  apply (arrayDimension suffix reads).bind
  intro dimension
  apply (reads.rule (fun _ => Underscored.barred) .type nofun).bind
  intro type
  exact make _

theorem memberPointerType : Extends tail .never (Parse.memberPointerType call)
    (Parse.memberPointerType call) fun _ => Stranded := by
  apply (expect suffix (by decide) fun _ => Rests.never.barred).seq
  apply (reads.extends_never .type nofun).bind
  intro scope
  apply (reads.rule (fun _ => Stranded.barred) .type nofun).bind
  intro member
  exact make _

omit reads in
theorem typeKeyword :
    Extends tail .never Parse.typeKeyword Parse.typeKeyword fun _ => .never := by
  apply accept_bind suffix (by decide) fun _ => Rests.never.barred
  · exact pure fun _ => id
  apply accept_bind suffix (by decide) fun _ => Rests.never.barred
  · exact pure fun _ => id
  apply accept_bind suffix (by decide) fun _ => Rests.never.barred
  · exact pure fun _ => id
  · exact pure fun _ => id

theorem namedType : Extends tail .never (Parse.namedType call) (Parse.namedType call)
    fun _ => Stranded := by
  apply (typeKeyword suffix).bind
  intro keyword
  apply (reads.extends_never (.name false) nofun).bind
  intro name
  cases keyword with
  | some keyword => exact make _
  | none => exact pure fun _ => id

theorem decltype : Extends tail .never (Parse.decltype call) (Parse.decltype call)
    fun _ => Stranded := by
  apply (accepted suffix (by decide) fun _ => Rests.never.barred).bind
  intro isPlain
  apply Extends.bind (B := fun _ => .never)
  · apply ite
    · exact fun _ => pure fun _ => id
    · exact fun _ => accepted suffix (by decide) fun _ => Rests.never.barred
  intro opened
  apply ensure_bind fun _ => Fails.unexpected
  apply (reads.extends_never .expression nofun).bind
  intro inner
  apply (expect suffix (by decide) fun _ => Stranded.barred).seq
  exact (make _).always

theorem vectorType : Extends tail .never (Parse.vectorType call) (Parse.vectorType call)
    fun _ => Stranded := by
  apply (expect suffix (by decide) fun _ => Rests.never.barred).seq
  apply peek_bind suffix ⟨rfl, rfl⟩
  intro first
  apply ite
  · intro _
    apply (number suffix false).bind
    intro number
    apply (make _).bind
    intro dimension
    apply (expectBar fun _ => Rests.never.eats).seq
    apply accept_bind suffix (by decide) fun _ => Rests.never.barred
    · exact (make _).always
    · apply (reads.extends_never .type nofun).bind
      intro type
      exact make _
  · intro _
    apply (computedDimension reads).bind
    intro dimension
    apply (reads.rule (fun _ => Underscored.barred) .type nofun).bind
    intro type
    exact make _

/-!
## Literals
-/

omit reads in
theorem literalNumber : Extends tail Barred Parse.literalNumber Parse.literalNumber
    fun _ => .never := by
  apply of_never
  · apply (number suffix true).bind
    intro value
    apply ensure_bind fun _ => Fails.unexpected
    apply (expect suffix (by decide) fun _ => Rests.never.barred).seq
    exact pure fun _ => id
  · intro s h
    exact Fails.number_bind h (Fails.bind Fails.unexpected)

omit reads in
theorem floatLiteral (format : FloatFormat) : Extends tail .never (Parse.floatLiteral format)
    (Parse.floatLiteral format) fun _ => .never := by
  apply get_bind
  intro s
  apply ExtendsFrom.take_bind
  intro fits
  simp only [ParseState.followed, List.take_append_of_le_length fits]
  apply ExtendsFrom.ensure_bind fun _ => Fails.throw _
  intro _
  apply ExtendsFrom.modify_bind rfl
  apply from_never
  apply (expect suffix (by decide) fun _ => Rests.never.barred).seq
  exact make _

theorem enumerator : Extends tail .never (Parse.enumerator call) (Parse.enumerator call)
    fun _ => .never := by
  apply (reads.extends_never .type nofun).bind
  intro type
  apply ((literalNumber suffix).narrow fun _ => Stranded.barred).bind
  intro value
  exact make _

theorem literal : Extends tail .never (Parse.literal call) (Parse.literal call)
    fun _ => Stranded := by
  apply (expect suffix (by decide) fun _ => Rests.never.barred).seq
  apply peekPair_bind suffix
  · intro first
    constructor
    · dsimp only
      split
      · rfl
      · split <;> rfl
    · dsimp only
      split
      · rfl
      · split <;> rfl
  · intro s left
    exact Fails.bind (reads.fails _ _ nofun (.of_nil left))
  · intro s some
    dsimp only
    split
    · rename_i type found
      apply ExtendsFrom.advance_one rfl
      · intro nul
        rw [nul] at found
        cases found
      apply ((literalNumber suffix).narrow fun _ => Rests.never.barred).bind
      intro value
      exact (make _).always
    · generalize look : s.cursor.peekAt 0 = first
      split
      · apply from_never
        apply accept_bind suffix (by decide) fun _ => Rests.never.barred
        · exact (make _).always
        apply accept_bind suffix (by decide) fun _ => Rests.never.barred
        · exact (make _).always
        · exact unexpected
      · apply from_never
        apply (expected "_Z").seq
        apply (reads.extends_never .encoding nofun).bind
        intro encoding
        apply (expect suffix (by decide) fun _ => Underscored.barred).seq
        exact pure fun _ h => h.elim
      · apply from_never
        apply (reads.extends_never .type nofun).bind
        intro type
        apply (expect suffix (by decide) fun _ => Stranded.barred).seq
        exact (make _).always
      · apply from_never
        apply accept_bind suffix (by decide) fun _ => Rests.never.barred
        · exact (makeName _).always
        apply accept_bind suffix (by decide) fun _ => Rests.never.barred
        · exact (makeName _).always
        · exact (enumerator suffix reads).always
      · exact .of_fails (Fails.throw _)
      · split
        · rename_i format found
          apply ExtendsFrom.advance_one look
          · rintro rfl
            cases found
          · exact (floatLiteral suffix format).always
        · apply from_never
          apply ite
          · intro _
            apply (unnamedTypeName suffix reads).bind
            intro type
            apply (expect suffix (by decide) fun _ => Rests.never.barred).seq
            exact (make _).always
          · exact fun _ => (enumerator suffix reads).always

end Extends
end Parse
end Unmangle
