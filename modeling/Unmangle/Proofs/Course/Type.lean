import Unmangle.Grammar.Type
import Unmangle.Proofs.Course.Name

/-!
# Types on course
-/
namespace Unmangle

theorem Builtin.letter_of_spelling? {char : Char} {words : String}
    (found : Builtin.spelling? char = some words) : Letter char := by
  unfold Builtin.spelling? at found
  split at found <;> first | decide | cases found

theorem Builtin.letter_of_extendedSpelling? {char : Char} {words : String}
    (found : Builtin.extendedSpelling? char = some words) : Letter char := by
  unfold Builtin.extendedSpelling? at found
  split at found <;> first | decide | cases found

namespace OnCourse

variable {symbol : ByteArray} {call : Calls} {s : ParseState}

theorem listing {type : Parse NodeId} (h : Leads symbol type s fun _ _ => True) :
    Leads symbol (Parse.listing type) s fun _ _ => True := by
  apply h.next
  intro id
  apply (enlist id).seq
  exact pure id

theorem qualifiesFunction : OnCourse symbol Parse.qualifiesFunction := by
  apply get.bind
  intro s
  split
  split <;> exact pure _

theorem binaryFloat (look : s.cursor.peekAt 0 = 'D') (look' : s.cursor.peekAt 1 = 'F') :
    Leads symbol Parse.binaryFloat s fun _ _ => True := by
  apply (Leads.advance_two look look' (by decide) (by decide)).next
  intro _ t
  apply (Leads.number false).bind
  intro width u ground _ known
  refine .ensure_bind .unexpected ?_
  intro _
  apply ((expect (by decide)) u).bind
  intro _ v _ course _
  exact .make_text (course.text ground known.1) rfl nofun

theorem typeKeyword : OnCourse symbol Parse.typeKeyword := by
  apply (accept (by decide)).bind
  intro held
  apply ite (pure _)
  apply (accept (by decide)).bind
  intro held
  apply ite (pure _)
  apply (accept (by decide)).bind
  intro held
  exact ite (pure _) (pure none)

theorem atParamsEnd : OnCourse symbol Parse.atParamsEnd := by
  apply (lookingAt _).bind
  intro ahead
  apply ite (pure true)
  apply (lookingAt _).bind
  intro ahead
  exact ite (pure true) (lookingAt _)

variable (calls : ∀ rule, OnCourse symbol (call rule))
include calls

theorem parameterType : OnCourse symbol (Parse.parameterType call) := by
  apply templateParam.bind
  intro param
  apply get.bind
  intro s
  apply peek.bind
  intro letter
  refine ite ?_ (pure param)
  apply (enlist param).seq
  exact instantiate calls false param

theorem substitutionType : OnCourse symbol (Parse.substitutionType call) := by
  apply (calls .substitution).bind
  intro listed
  apply get.bind
  intro s
  apply peek.bind
  intro letter
  exact ite (fun t => listing (instantiate calls false listed t)) (pure listed)

theorem wrappedType {wrap : NodeId → Node} {letter : Char} (none : ∀ id, (wrap id).texts = [])
    (ready : ∀ id index, wrap id ≠ .forwardParam index .none)
    (look : s.cursor.peekAt 0 = letter) (known : Letter letter) :
    Leads symbol (Parse.wrappedType call wrap) s fun _ _ => True := by
  apply (Leads.advance_one look known).next
  intro _
  apply (calls .type).bind
  intro id
  exact make (none id) (ready id)

theorem type : OnCourse symbol (Parse.type call) := by
  intro s
  apply Leads.peekPair_bind
  intro first second look look'
  dsimp only
  have begins := TypeKind.begins_ofLetters first second
  cases kind : TypeKind.ofLetters first second with rw [kind] at begins
  | builtin words =>
    apply (Leads.advance_one look (Builtin.letter_of_spelling? begins)).next
    intro _
    exact makeName words
  | extended words =>
    obtain ⟨rfl, found⟩ := begins
    apply (Leads.advance_two look look' (by decide) (Builtin.letter_of_extendedSpelling? found)).next
    intro _
    exact makeName words
  | listed rule => exact listing (calls rule s)
  | qualified =>
    apply listing
    apply (qualifiesFunction s).next
    intro isFunction
    exact ite (calls .functionType) (calls .qualifiedType)
  | vendor =>
    obtain rfl := begins
    apply (Leads.advance_one look (by decide)).next
    intro _ t
    apply listing
    apply Leads.identifier.bind
    intro name _ _ _ whole
    exact .make_name whole
  | binaryFloat =>
    obtain ⟨rfl, rfl⟩ := begins
    exact listing (binaryFloat look look')
  | expansion =>
    obtain ⟨rfl, rfl⟩ := begins
    apply (Leads.advance_two look look' (by decide) (by decide)).next
    intro _ t
    apply listing
    apply (calls .type t).next
    intro type
    exact make rfl nofun
  | parameter => exact listing (parameterType calls s)
  | pointer =>
    obtain rfl := begins
    exact listing (wrappedType calls (fun _ => rfl) (fun _ => nofun) look (by decide))
  | reference reference =>
    have letters : ∀ char ∈ ['R', 'O'], Letter char := by decide
    exact listing (wrappedType calls (fun _ => rfl) (fun _ => nofun) look (letters first begins))
  | trailing words =>
    have letters : ∀ char ∈ ['C', 'G'], Letter char := by decide
    exact listing (wrappedType calls (fun _ => rfl) (fun _ => nofun) look (letters first begins.1))
  | substitution => exact substitutionType calls s
  | unknown => exact .unexpected

theorem qualifiedType : OnCourse symbol (Parse.qualifiedType call) := by
  apply (accept (by decide)).bind
  intro held
  refine ite (fun s => ?_) ?_
  · apply Leads.identifier.bind
    intro extension t ground _ whole
    apply (calls .qualifiedType t).bind
    intro type u _ course _
    exact .make_text (course.text ground whole) rfl nofun
  · apply qualifiers.bind
    intro quals
    apply (calls .type).bind
    intro type
    refine ite (pure type) ?_
    exact make rfl nofun

theorem exceptionSpec : OnCourse symbol (Parse.exceptionSpec call) := by
  apply (accept (by decide)).bind
  intro held
  refine ite (map (makeName _)) ?_
  apply (accept (by decide)).bind
  intro held
  apply ite
  · apply (calls .expression).bind
    intro operand
    apply (expect (by decide)).seq
    exact map (make rfl nofun)
  · apply (accept (by decide)).bind
    intro held
    refine ite ?_ (pure none)
    apply (nodesUntil (by decide) (calls .type)).bind
    intro types
    apply (makeList types).bind
    intro list
    exact map (make rfl nofun)

theorem functionParams : OnCourse symbol (Parse.functionParams call) := by
  refine untilHolds atParamsEnd (fun params => ?_) #[]
  apply (accept (by decide)).bind
  intro held
  apply ite (pure params)
  apply (calls .type).bind
  intro id
  exact pure (params.push id)

theorem functionType : OnCourse symbol (Parse.functionType call) := by
  apply qualifiers.bind
  intro quals
  apply (exceptionSpec calls).bind
  intro exception
  apply (discard (accept (by decide))).seq
  apply (expect (by decide)).seq
  apply (discard (accept (by decide))).seq
  apply (calls .type).bind
  intro result
  apply (functionParams calls).bind
  intro params
  apply refQualifier.bind
  intro ref
  apply (expect (by decide)).seq
  apply (makeList params).bind
  intro list
  exact make rfl nofun

theorem computedDimension : OnCourse symbol (Parse.computedDimension call) := by
  apply (accept (by decide)).bind
  intro held
  apply ite (pure none)
  apply (calls .expression).bind
  intro size
  apply (expect (by decide)).seq
  exact pure (some size)

theorem arrayDimension : OnCourse symbol (Parse.arrayDimension call) := by
  apply peek.bind
  intro letter
  refine ite (fun s => ?_) (computedDimension calls)
  apply (Leads.number false).bind
  intro number t ground _ known
  apply (expect (by decide) t).bind
  intro _ u _ course _
  apply (Leads.make_name (course.text ground known.1)).next
  intro id
  exact pure (some id)

theorem arrayType : OnCourse symbol (Parse.arrayType call) := by
  apply (expect (by decide)).seq
  apply (arrayDimension calls).bind
  intro dimension
  apply (calls .type).bind
  intro type
  exact make rfl nofun

theorem memberPointerType : OnCourse symbol (Parse.memberPointerType call) := by
  apply (expect (by decide)).seq
  apply (calls .type).bind
  intro type
  apply (calls .type).bind
  intro type
  exact make rfl nofun

theorem namedType : OnCourse symbol (Parse.namedType call) := by
  apply typeKeyword.bind
  intro keyword
  apply (calls _).bind
  intro name
  split
  · exact make rfl nofun
  · exact pure name

theorem decltype : OnCourse symbol (Parse.decltype call) := by
  apply (accept (by decide)).bind
  intro held
  apply (ite (pure true) (accept (by decide))).bind
  intro held
  apply (ensure unexpected).seq
  apply (calls .expression).bind
  intro inner
  apply (expect (by decide)).seq
  exact make rfl nofun

theorem vectorType : OnCourse symbol (Parse.vectorType call) := by
  apply (expect (by decide)).seq
  apply peek.bind
  intro letter
  refine ite (fun s => ?_) ?_
  · apply (Leads.number false).bind
    intro number t _ _ known
    apply (Leads.make_name known.1).next
    intro dimension
    apply (expect (by decide)).seq
    apply (accept (by decide)).bind
    intro held
    apply ite
    · exact make rfl nofun
    · apply (calls .type).bind
      intro type
      exact make rfl nofun
  · apply (computedDimension calls).bind
    intro dimension
    apply (calls .type).bind
    intro type
    exact make rfl nofun

end OnCourse
end Unmangle
