import Unmangle.Grammar.Type
import Unmangle.Proofs.Formation.Name

/-!
# Well-formed types

A builtin type is a name that stands for itself. Where a symbol is regular nothing else is
qualified as complex or imaginary, so the words of that stand behind all of it.
-/
namespace Unmangle

theorem Builtin.plain_of_spelling? {char : Char} {words : String}
    (found : Builtin.spelling? char = some words) : Plain words ∧ words ≠ "" := by
  unfold Builtin.spelling? at found
  split at found <;> first | (cases found; exact ⟨by decide, by decide⟩) | cases found

theorem Builtin.plain_of_extendedSpelling? {char : Char} {words : String}
    (found : Builtin.extendedSpelling? char = some words) : Plain words ∧ words ≠ "" := by
  unfold Builtin.extendedSpelling? at found
  split at found <;> first | (cases found; exact ⟨by decide, by decide⟩) | cases found

theorem Cursor.of_atBuiltin {cursor : Cursor} (h : cursor.atBuiltin = true) :
    (Builtin.spelling? (cursor.peekAt 0)).isSome ∨ cursor.peekAt 0 = 'u' ∨
      cursor.peekAt 0 = 'D' ∧
        (cursor.peekAt 1 = 'F' ∨ (Builtin.extendedSpelling? (cursor.peekAt 1)).isSome) := by
  simpa only [atBuiltin, Bool.or_eq_true, Bool.and_eq_true, beq_iff_eq, or_assoc] using h

def TypeKind.isBuiltin : TypeKind → Bool
  | builtin _ | extended _ | vendor | binaryFloat => true
  | _ => false

theorem TypeKind.isBuiltin_of_atBuiltin {cursor : Cursor} (h : cursor.atBuiltin = true) :
    (ofLetters (cursor.peekAt 0) (cursor.peekAt 1)).isBuiltin = true := by
  obtain short | vendor | ⟨long, float | more⟩ := Cursor.of_atBuiltin h
  · obtain ⟨words, found⟩ := Option.isSome_iff_exists.mp short
    rw [ofLetters_of_spelling? found]
    rfl
  · rw [vendor]
    rfl
  · rw [long, float]
    rfl
  · obtain ⟨words, found⟩ := Option.isSome_iff_exists.mp more
    rw [long]
    show (behindD (cursor.peekAt 1)).isBuiltin = true
    rw [behindD_of_extendedSpelling? found]
    rfl

variable {symbol : ByteArray} {regular : Prop} {call : Calls} {s : ParseState}

namespace KeepsForm

theorem listing {type : Parse NodeId} (h : KeepsForm symbol regular type) :
    KeepsForm symbol regular (Parse.listing type) := by
  apply h.bind
  intro id
  apply (enlist id).seq
  exact pure id

theorem qualifiesFunction : KeepsForm symbol regular Parse.qualifiesFunction := by
  apply get_bind
  intro s
  split
  split <;> exact pure _

theorem atParamsEnd : KeepsForm symbol regular Parse.atParamsEnd := by
  apply (lookingAt "E").bind
  intro ahead
  apply ite (pure true)
  apply (lookingAt "RE").bind
  intro ahead
  exact ite (pure true) (lookingAt "OE")

end KeepsForm

namespace Forms

/-- What is known of a type is known of it when it is listed. -/
theorem listing {type : Parse NodeId} {shape : Shape} {known : Prop}
    (h : Forms symbol regular type s fun id t => known → t.work.tree.Holds shape id) :
    Forms symbol regular (Parse.listing type) s fun id t => known → t.work.tree.Holds shape id := by
  apply h.bind
  intro id t _ holds
  apply bind (KeepsForm.enlist id t)
  intro _ _ stays _
  exact .pure fun here => (holds here).stays stays

/-- Of a type that is not builtin nothing is known. -/
theorem unknown {p : Parse NodeId} {shape : Shape} {known : Prop} (keeps : KeepsForm symbol regular p)
    (other : ¬known) : Forms symbol regular p s fun id t => known → t.work.tree.Holds shape id :=
  (keeps s).weaken fun _ _ _ _ here => absurd here other

theorem binaryFloat :
    Forms symbol regular Parse.binaryFloat s fun id t => t.work.tree.Holds .single id := by
  apply (advance 2).bind
  intro _ t _ _
  apply (number false).bind
  intro width u _ read
  refine .ensure_bind unexpected ?_
  intro _
  apply (expect "_").bind
  intro _ v _ _
  exact make_shape .single rfl read.2.1

theorem typeKeyword :
    Forms symbol regular Parse.typeKeyword s fun keyword _ => ∀ words ∈ keyword, Plain words := by
  apply (accept "Ts").bind
  intro _ t _ _
  refine .ite (fun _ => .pure ?_) fun _ => ?_
  · rintro _ ⟨⟩
    decide
  apply (accept "Tu").bind
  intro _ u _ _
  refine .ite (fun _ => .pure ?_) fun _ => ?_
  · rintro _ ⟨⟩
    decide
  apply (accept "Te").bind
  intro _ v _ _
  refine .ite (fun _ => .pure ?_) fun _ => .pure nofun
  rintro _ ⟨⟩
  decide

variable (calls : FormsAll symbol regular call)
include calls

theorem decltype :
    Forms symbol regular (Parse.decltype call) s fun id t => t.work.tree.Holds .part id := by
  apply (accept "Dt").bind
  intro _ t _ _
  refine bind (Q := fun _ _ => True) ?_ fun _ u _ _ => ?_
  · exact .ite (fun _ => .pure trivial) fun _ => KeepsForm.accept "DT" t
  · refine .ensure_bind unexpected ?_
    intro _
    apply (calls .expression u).bind
    intro _ v _ _
    apply (expect "E").bind
    intro _ _ _ _
    exact make_shape .part rfl (by decide : Plain "decltype")

end Forms

namespace KeepsForm

variable (calls : FormsAll symbol regular call)
include calls

theorem parameterType : KeepsForm symbol regular (Parse.parameterType call) := by
  apply templateParam.bind
  intro param
  apply get_bind
  intro s
  apply peek.bind
  intro letter
  refine ite ?_ (pure param)
  apply (enlist param).seq
  exact instantiate calls false param

theorem substitutionType : KeepsForm symbol regular (Parse.substitutionType call) := by
  apply (of_all calls .substitution).bind
  intro listed
  apply get_bind
  intro s
  apply peek.bind
  intro letter
  exact ite (listing (instantiate calls false listed)) (pure listed)

theorem wrappedType {wrap : NodeId → Node} (formed : ∀ id tree, (wrap id).Formed symbol regular tree) :
    KeepsForm symbol regular (Parse.wrappedType call wrap) := by
  apply (advance 1).seq
  apply (of_all calls .type).bind
  intro id
  exact make (formed id)

/-- Words behind a type are behind all of it, if the type is builtin wherever that is asked. -/
theorem wordsBehind {words : String} (plain : Plain words)
    (builtin : regular → (s.cursor.advance 1).atBuiltin = true) :
    Forms symbol regular (Parse.wrappedType call (.trailingQualified · words)) s fun _ _ => True := by
  apply (Forms.advance 1).bind
  intro _ t _ moved
  apply (calls .type t).bind
  intro id u _ single
  refine Forms.keeps (Forms.make ⟨fun known => single ?_, plain⟩)
  rw [moved]
  exact builtin known

theorem qualifiedType : KeepsForm symbol regular (Parse.qualifiedType call) := by
  apply (accept "U").bind
  intro held
  refine ite (fun s => ?_) ?_
  · apply Forms.identifier.bind
    intro extension t _ named
    apply (calls .qualifiedType t).bind
    intro type u _ _
    obtain ⟨start, stop, rfl, -⟩ := named
    exact Forms.keeps (Forms.make trivial)
  · apply qualifiers.bind
    intro quals
    apply (of_all calls .type).bind
    intro type
    exact ite (pure type) (make fun _ => trivial)

theorem exceptionSpec : KeepsForm symbol regular (Parse.exceptionSpec call) := by
  apply (accept "Do").bind
  intro held
  refine ite (map (makeName ⟨by decide, by decide⟩)) ?_
  apply (accept "DO").bind
  intro held
  apply ite
  · apply (of_all calls .expression).bind
    intro operand
    apply (expect "E").seq
    exact map (make fun _ => trivial)
  · apply (accept "Dw").bind
    intro held
    refine ite ?_ (pure none)
    apply (nodesUntil "E" (of_all calls .type)).bind
    intro types
    apply (makeList types).bind
    intro list
    exact map (make fun _ => trivial)

theorem functionParams : KeepsForm symbol regular (Parse.functionParams call) := by
  refine untilHolds atParamsEnd (fun params => ?_) #[]
  apply (accept "v").bind
  intro held
  apply ite (pure params)
  apply (of_all calls .type).bind
  intro id
  exact pure (params.push id)

theorem functionType : KeepsForm symbol regular (Parse.functionType call) := by
  apply qualifiers.bind
  intro quals
  apply (exceptionSpec calls).bind
  intro exception
  apply (discard (accept "Dx")).seq
  apply (expect "F").seq
  apply (discard (accept "Y")).seq
  apply (of_all calls .type).bind
  intro result
  apply (functionParams calls).bind
  intro params
  apply refQualifier.bind
  intro ref
  apply (expect "E").seq
  apply (makeList params).bind
  intro list
  exact make fun _ => trivial

theorem computedDimension : KeepsForm symbol regular (Parse.computedDimension call) := by
  apply (accept "_").bind
  intro held
  apply ite (pure none)
  apply (of_all calls .expression).bind
  intro size
  apply (expect "_").seq
  exact pure (some size)

/-- A dimension that begins with a digit is a number. -/
theorem arrayDimension : KeepsForm symbol regular (Parse.arrayDimension call) := by
  intro s
  refine .peek_bind (.ite (fun digit => ?_) fun _ => computedDimension calls s)
  apply (Forms.number false).bind
  intro size t _ read
  apply (Forms.expect "_").bind
  intro _ u _ _
  have called : size.Called symbol := (read.2.2.1 (read.2.2.2 digit)).called
  refine Forms.bind (Forms.make called) ?_
  intro id _ _ _
  exact .pure trivial

theorem arrayType : KeepsForm symbol regular (Parse.arrayType call) := by
  apply (expect "A").seq
  apply (arrayDimension calls).bind
  intro dimension
  apply (of_all calls .type).bind
  intro type
  exact make fun _ => trivial

theorem memberPointerType : KeepsForm symbol regular (Parse.memberPointerType call) := by
  apply (expect "M").seq
  apply (of_all calls .type).bind
  intro type
  apply (of_all calls .type).bind
  intro type
  exact make fun _ => trivial

theorem namedType : KeepsForm symbol regular (Parse.namedType call) := by
  intro s
  apply Forms.typeKeyword.bind
  intro keyword t _ plain
  apply (calls (.name false) t).bind
  intro name u _ _
  split
  · exact Forms.keeps (Forms.make (plain _ rfl))
  · exact .pure trivial

theorem vectorType : KeepsForm symbol regular (Parse.vectorType call) := by
  apply (expect "Dv").bind
  intro _ s
  refine .peek_bind (.ite (fun digit => ?_) fun _ => ?_)
  · apply (Forms.number false).bind
    intro size t _ read
    have isDigit : (s.cursor.peekAt 0).isDigit = true := by
      simp only [Char.isDigit, Bool.and_eq_true, decide_eq_true_eq]
      exact ⟨Char.le_trans (by decide) digit.1, digit.2⟩
    have called : size.Called symbol := (read.2.2.1 (read.2.2.2 isDigit)).called
    refine Forms.bind (Forms.make called) ?_
    intro dimension u _ _
    apply (Forms.expect "_").bind
    intro _ v _ _
    apply (accept "p" v).next
    intro held
    refine ite (make fun _ => trivial) ?_
    apply (of_all calls .type).bind
    intro type
    exact make fun _ => trivial
  · apply (computedDimension calls s).next
    intro dimension
    apply (of_all calls .type).bind
    intro type
    exact make fun _ => trivial

end KeepsForm

namespace Forms

variable (calls : FormsAll symbol regular call)
include calls

/-- Nothing stands behind the name that a built-in type declares. -/
theorem type (reg : regular → ¬Rule.Irregular .type s.cursor) :
    Forms symbol regular (Parse.type call) s fun id t =>
      s.cursor.atBuiltin = true → t.work.tree.Holds .single id := by
  apply Forms.peekPair_bind
  dsimp only
  have begins := TypeKind.begins_ofLetters (s.cursor.peekAt 0) (s.cursor.peekAt 1)
  have single : s.cursor.atBuiltin = true → _ := TypeKind.isBuiltin_of_atBuiltin
  cases kind : TypeKind.ofLetters (s.cursor.peekAt 0) (s.cursor.peekAt 1) with
  | builtin words =>
    rw [kind] at begins
    apply (advance 1).bind
    intro _ _ _ _
    exact weaken (makeName (Builtin.plain_of_spelling? begins)) fun _ _ _ part _ => part.single
  | extended words =>
    rw [kind] at begins
    apply (advance 2).bind
    intro _ _ _ _
    exact weaken (makeName (Builtin.plain_of_extendedSpelling? begins.2)) fun _ _ _ part _ =>
      part.single
  | vendor =>
    apply (advance 1).bind
    intro _ t _ _
    apply listing
    apply identifier.bind
    intro text u _ named
    obtain ⟨-, -, -, called⟩ := named
    exact weaken (make_shape .part rfl called) fun _ _ _ part _ => part.single
  | binaryFloat => exact listing (binaryFloat.weaken fun _ _ _ single _ => single)
  -- nothing is told of what begins no builtin type
  | listed rule =>
    rw [kind] at single
    exact unknown (.listing (.of_all calls rule)) fun builtin => nomatch single builtin
  | qualified =>
    rw [kind] at single
    refine unknown (.listing ?_) fun builtin => nomatch single builtin
    apply KeepsForm.qualifiesFunction.bind
    intro isFunction
    exact .ite (.of_all calls .functionType) (.of_all calls .qualifiedType)
  | expansion =>
    rw [kind] at single
    refine unknown ?_ fun builtin => nomatch single builtin
    apply (KeepsForm.advance 2).seq
    apply KeepsForm.listing
    apply (KeepsForm.of_all calls .type).bind
    intro type
    exact .make fun _ => trivial
  | parameter =>
    rw [kind] at single
    exact unknown (.listing (.parameterType calls)) fun builtin => nomatch single builtin
  | pointer | reference =>
    rw [kind] at single
    exact unknown (.listing (.wrappedType calls fun _ _ => trivial)) fun builtin =>
      nomatch single builtin
  | trailing words =>
    rw [kind] at single begins
    have plain : ∀ words ∈ [" complex", " imaginary"], Plain words := by decide
    have qualified (known : regular) : (s.cursor.advance 1).atBuiltin = true := by
      by_contra other
      refine reg known ⟨?_, Bool.eq_false_iff.mpr other⟩
      simpa using begins.1
    refine listing ((KeepsForm.wordsBehind calls (plain words begins.2) qualified).weaken ?_)
    exact fun _ _ _ _ builtin => nomatch single builtin
  | substitution =>
    rw [kind] at single
    exact unknown (.substitutionType calls) fun builtin => nomatch single builtin
  | unknown => exact unexpected

end Forms
end Unmangle
