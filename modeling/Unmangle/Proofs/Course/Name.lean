import Unmangle.Grammar.Name
import Unmangle.Proofs.Course.Token

/-!
# Names and template arguments on course
-/
namespace Unmangle

/-- The code of an operator is two letters. -/
theorem Operator.letters {first second : Char} {operator : Operator}
    (found : Operator.find? first second = some operator) : Letter first ∧ Letter second := by
  have all : ∀ operator ∈ Operator.all, Letter operator.code.1 ∧ Letter operator.code.2 := by
    decide
  have code := List.find?_some found
  rw [Bool.and_eq_true, beq_iff_eq, beq_iff_eq] at code
  rw [← code.1, ← code.2]
  exact all operator (List.mem_of_find?_eq_some found)

namespace OnCourse

variable {symbol : ByteArray} {call : Calls}

/-- A template parameter that is used ahead of its argument waits from then on. -/
theorem forwardParam (index : Nat) :
    OnCourse symbol do
      let id ← Parse.make (.forwardParam index none)
      modify fun state : ParseState =>
        { state with work := { state.work with forward := state.work.forward.push id } }
      return id := by
  rintro s - _ t ⟨⟩
  refine ⟨.one (.wait index), trivial, ?_⟩
  rintro u (made | ⟨_, _, ⟨⟩, listed⟩)
  · cases made
    exact ⟨_, .one (.wait index), rfl, .refl _⟩
  · obtain listed | ⟨_, _, ⟨⟩, never⟩ := listed
    · cases listed
      exact .last (.one (.wait index))
    · exact (Parse.happens_pure _ _ never).elim

theorem ordinal : OnCourse symbol Parse.ordinal := by
  apply decimal.bind
  intro value
  apply (orFault _ _).bind
  intro number
  apply (expect (by decide)).seq
  exact pure number

/-- A parameter without an argument joins those that wait. -/
theorem templateParam : OnCourse symbol Parse.templateParam := by
  apply (expect (by decide)).seq
  apply (accept (by decide)).bind
  intro held
  apply (ite ordinal (pure 0)).bind
  intro level
  apply (accept (by decide)).bind
  intro held
  apply (ite (pure 0) ordinal).bind
  intro index
  apply get.bind
  intro s
  refine ite (forwardParam index) ?_
  split
  · exact make rfl nofun
  · refine ite ?_ (throw _)
    apply (ite (setScopes _) (pure ())).seq
    exact makeName "auto"

section Calls

variable (calls : ∀ rule, OnCourse symbol (call rule))
include calls

theorem scopedArg : OnCourse symbol (Parse.scopedArg call) := by
  apply get.bind
  intro s
  apply (setLevels _).seq
  apply OnCourse.bind
  · exact thenAlways ⟨fun _ => rfl, fun _ => rfl, fun _ => rfl⟩ (calls .templateArg)
  intro arg
  apply (node arg).bind
  intro found
  apply OnCourse.bind
  · split
    · exact make rfl nofun
    · exact pure arg
  intro entry
  apply (addArgument entry).seq
  exact pure arg

theorem templateArgs (tracked : Bool) : OnCourse symbol (Parse.templateArgs call tracked) := by
  apply (expect (by decide)).seq
  apply (ite (setScopes _) (pure ())).seq
  apply (nodesUntil (by decide) (ite (scopedArg calls) (calls .templateArg))).bind
  intro args
  apply (makeList args).bind
  intro list
  exact make rfl nofun

theorem templateArg : OnCourse symbol (Parse.templateArg call) := by
  intro s
  refine .peekPair_bind ?_
  intro first second look look'
  split
  · rename_i h
    cases h
    apply (Leads.advance_one look (by decide)).next
    intro _
    apply (calls .expression).bind
    intro operand
    apply (expect (by decide)).seq
    exact pure _
  · rename_i h
    cases h
    apply (Leads.advance_one look (by decide)).next
    intro _
    apply (nodesUntil (by decide) (calls .templateArg)).bind
    intro args
    apply (makeList args).bind
    intro list
    exact make rfl nofun
  · rename_i h
    cases h
    apply (Leads.advance_two look look' (by decide) (by decide)).next
    intro _
    apply (calls .encoding).bind
    intro encoding
    apply (expect (by decide)).seq
    exact pure _
  · exact calls .literal s
  · exact calls .type s

theorem instantiate (tracked : Bool) (name : NodeId) :
    OnCourse symbol (Parse.instantiate call tracked name) := by
  apply (calls _).bind
  intro id
  apply (learn _ _).seq
  exact make rfl nofun

theorem instantiateIfArgs (name : NodeId) :
    OnCourse symbol (Parse.instantiateIfArgs call name) := by
  apply peek.bind
  intro letter
  exact ite (instantiate calls false name) (pure name)

end Calls

theorem sourceName : OnCourse symbol Parse.sourceName := by
  intro s
  apply Leads.identifierFrom.bind
  intro r t _ _ whole
  obtain ⟨words, bytes⟩ := r
  exact .ite (fun _ => makeName _ t) fun _ => .make_name whole

/-- Behind a tag comes an identifier. -/
theorem abiTags (name : NodeId) : OnCourse symbol (Parse.abiTags name) := by
  refine untilHolds ?_ ?_ name
  · apply (lookingAt _).bind
    intro ahead
    exact pure _
  intro base
  apply (expect (by decide)).bind
  intro _ t
  apply Leads.identifier.bind
  intro tag _ _ _ whole
  exact .make_text whole rfl nofun

/-- A count, closed by a mark. What is made of it keeps the count as its text. -/
theorem counted {shape : Text → Node} (one : ∀ words, (shape words).texts = [words])
    (integral : ∀ words format, shape words ≠ .float format words) :
    OnCourse symbol (do
      let count ← Parse.number false
      Parse.expect "_"
      Parse.make (shape count)) := by
  intro s
  apply (Leads.number false).bind
  intro count t ground _ known
  apply ((expect (by decide)) t).bind
  intro _ u _ course _
  exact .make_text (course.text ground known.1) (one count) (integral count)

theorem component (scope : Option NodeId) (part : NodeId) (tracked : Bool) :
    OnCourse symbol (Parse.component scope part tracked) := by
  apply OnCourse.bind
  · cases scope with
    | some scope => exact make rfl nofun
    | none => exact pure part
  intro node
  apply (learn _ _).seq
  exact pure node

theorem resultless (tracked : Bool) : OnCourse symbol (Parse.resultless tracked) :=
  learn _ _

theorem structorScope (scope : NodeId) : OnCourse symbol (Parse.structorScope scope) := by
  apply (node scope).bind
  intro found
  split
  · exact make rfl nofun
  · exact pure scope

theorem listedPart (scope : Option NodeId) (part : NodeId) (tracked : Bool) :
    OnCourse symbol (Parse.nestedPart.listedPart tracked scope part) := by
  apply (component scope part tracked).bind
  intro node
  apply (enlist node).seq
  exact pure (some node)

theorem refQualifier : OnCourse symbol Parse.refQualifier := by
  apply (accept (by decide)).bind
  intro held
  apply ite (pure _)
  apply (accept (by decide)).bind
  intro held
  exact ite (pure _) (pure none)

theorem structuredBinding (s : ParseState) (look : s.cursor.peekAt 0 = 'D')
    (look' : s.cursor.peekAt 1 = 'C') :
    Leads symbol Parse.structuredBinding s fun _ _ => True := by
  apply (Leads.advance_two look look' (by decide) (by decide)).next
  intro _
  apply (someNodes (accept (by decide)) sourceName).bind
  intro names
  apply (makeList names).bind
  intro list
  exact make rfl nofun

theorem letter_of_isDestructorKind {kind : Char} (known : Parse.isDestructorKind kind = true) :
    Letter kind := by
  have letters : ∀ char ∈ ['0', '1', '2', '4', '5'], Letter char := by decide
  exact letters kind (List.contains_iff_mem.mp known)

theorem destructorName (scope : NodeId) (tracked : Bool) {s : ParseState} {kind : Char}
    (look : s.cursor.peekAt 0 = 'D') (look' : s.cursor.peekAt 1 = kind) (letter : Letter kind) :
    Leads symbol (Parse.destructorName scope tracked) s fun _ _ => True := by
  apply (Leads.advance_two look look' (by decide) letter).next
  intro _
  apply (resultless tracked).seq
  exact make rfl nofun

section Calls

variable (calls : ∀ rule, OnCourse symbol (call rule))
include calls

theorem unnamedTypeName : OnCourse symbol (Parse.unnamedTypeName call) := by
  apply (accept (by decide)).bind
  intro held
  refine ite (counted (fun _ => rfl) fun _ _ => nofun) ?_
  apply (accept (by decide)).bind
  intro held
  refine ite ?_ unexpected
  apply get.bind
  intro before
  apply OnCourse.seq
  · exact modified ⟨fun _ => rfl, fun _ => rfl, fun _ => rfl⟩
  refine OnCourse.bind ?_ fun params => counted (fun _ => rfl) fun _ _ => nofun
  · refine thenAlways ⟨fun _ => rfl, fun _ => rfl, fun _ => rfl⟩ ?_
    apply (accept (by decide)).bind
    intro held
    refine OnCourse.bind ?_ makeList
    exact ite (pure #[]) (someNodes (accept (by decide)) (calls .type))

theorem constructorName (scope : NodeId) (tracked : Bool) :
    OnCourse symbol (Parse.constructorName call scope tracked) := by
  apply (accept (by decide)).bind
  intro inheriting s
  refine .peek_bind ?_
  intro kind look
  refine .ensure_bind .unexpected ?_
  intro known
  have letter : Letter kind := .of_le '1' '5' (by decide) (by decide) (of_decide_eq_true known)
  apply (Leads.advance_one look letter).next
  intro _
  apply (resultless tracked).seq
  apply (ite (discard (calls _)) (pure ())).seq
  exact make rfl nofun

theorem structorName (scope : NodeId) (tracked : Bool) :
    OnCourse symbol (Parse.structorName call scope tracked) := by
  apply (accept (by decide)).bind
  intro isConstructor
  apply ite (constructorName calls scope tracked)
  intro s
  apply Leads.peekPair_bind
  intro first second look look'
  apply Leads.ite
  · intro destructor
    obtain ⟨rfl, kind⟩ : first = 'D' ∧ Parse.isDestructorKind second = true := by
      simpa using destructor
    exact destructorName scope tracked look look' (letter_of_isDestructorKind kind)
  · intro other
    exact .unexpected

theorem nestedPart (tracked : Bool) (scope : Option NodeId) :
    OnCourse symbol (Parse.nestedPart call tracked scope) := by
  apply atEnd.bind
  intro ended
  apply (ensure (throw _)).seq
  apply (discard (accept (by decide))).seq
  apply (accept (by decide)).bind
  intro held
  apply ite
  · apply (ensure (throw _)).seq
    exact pure scope
  intro s
  refine .peekPair_bind ?_
  intro first second look look'
  split
  · apply (templateParam s).next
    intro part
    exact listedPart scope part tracked
  · apply (orFault scope _ s).next
    intro name
    apply (instantiate calls tracked name).bind
    intro node
    apply (enlist node).seq
    exact pure (some node)
  · apply (calls .decltype s).next
    intro part
    exact listedPart scope part tracked
  · apply (calls .decltype s).next
    intro part
    exact listedPart scope part tracked
  · refine ite ?_ (ite ?_ ?_) s
    · apply (calls .substitution).bind
      intro listed
      apply (component scope listed tracked).bind
      intro node
      apply (ite (pure ()) (enlist node)).seq
      exact pure (some node)
    · apply (orFault scope _).bind
      intro outside
      apply (structorScope outside).bind
      intro inside
      apply (structorName calls inside tracked).bind
      intro structor
      apply (component (some inside) structor tracked).bind
      intro named
      apply (abiTags named).bind
      intro node
      apply (enlist node).seq
      exact pure (some node)
    · apply (calls _).bind
      intro part
      exact listedPart scope part tracked

theorem nestedName (tracked : Bool) : OnCourse symbol (Parse.nestedName call tracked) := by
  apply OnCourse.bind
  · apply (expect (by decide)).seq
    apply qualifiers.bind
    intro quals
    apply refQualifier.bind
    intro ref
    apply (learn _ _).seq
    apply (accept (by decide)).bind
    intro held
    apply (ite (map (makeName "std")) (pure none)).bind
    intro start
    apply (untilHolds (accept (by decide)) (nestedPart calls tracked) start).bind
    intro complete
    exact orFault complete _
  intro complete
  apply delist.seq
  exact pure complete

theorem localName (tracked : Bool) : OnCourse symbol (Parse.localName call tracked) := by
  apply (expect (by decide)).seq
  apply (calls .encoding).bind
  intro encoding
  apply (expect (by decide)).seq
  apply (accept (by decide)).bind
  intro held
  apply ite
  · apply skipDiscriminator.seq
    apply (makeName _).bind
    intro name
    exact make rfl nofun
  · apply (accept (by decide)).bind
    intro held
    apply ite
    · apply (discard (number true)).seq
      apply (expect (by decide)).seq
      apply (calls _).bind
      intro id
      exact make rfl nofun
    · apply (calls _).bind
      intro entity
      apply skipDiscriminator.seq
      exact make rfl nofun

theorem conversionName (tracked : Bool) :
    OnCourse symbol (Parse.operatorName.conversionName call tracked) := by
  apply get.bind
  intro before
  apply OnCourse.seq
  · exact modified ⟨fun _ => rfl, fun _ => rfl, fun _ => rfl⟩
  apply OnCourse.bind
  · exact thenAlways ⟨fun _ => rfl, fun _ => rfl, fun _ => rfl⟩ (calls .type)
  · intro type
    apply (resultless tracked).seq
    exact make rfl nofun

theorem operatorName (tracked : Bool) : OnCourse symbol (Parse.operatorName call tracked) := by
  intro s
  refine .peekPair_bind ?_
  intro first second look look'
  dsimp only
  split
  · rename_i operator found
    obtain ⟨letter, letter'⟩ := Operator.letters found
    apply (Leads.advance_two look look' letter letter').next
    intro _
    apply ite (conversionName calls tracked)
    apply (orFault _ _).bind
    exact makeName
  · apply (Leads.accept (by decide)).bind
    intro taken t _ _ same
    refine .ite (fun _ => ?_) fun missed => ?_
    · apply (sourceName t).next
      intro name
      exact make rfl nofun
    obtain rfl := same (by simpa using missed)
    refine .ite (fun isVendor => ?_) fun _ => .unexpected
    rw [Bool.and_eq_true, beq_iff_eq] at isVendor
    obtain ⟨rfl, isDigit⟩ := isVendor
    apply (Leads.advance_two look look' (by decide) (.of_isDigit isDigit)).next
    intro _
    apply sourceName.bind
    intro name
    exact make rfl nofun

theorem unqualifiedName (tracked : Bool) :
    OnCourse symbol (Parse.unqualifiedName call tracked) := by
  intro s
  refine .peekPair_bind ?_
  intro first second look look'
  refine Leads.next (Q := fun _ _ => True) ?_ abiTags
  refine .ite (fun _ => unnamedTypeName calls s) fun _ => .ite (fun _ => sourceName s) fun _ => ?_
  refine .ite (fun isBinding => ?_) fun _ => calls _ s
  rw [Bool.and_eq_true, beq_iff_eq, beq_iff_eq] at isBinding
  obtain ⟨rfl, rfl⟩ := isBinding
  exact structuredBinding s look look'

theorem unscopedName (tracked : Bool) : OnCourse symbol (Parse.unscopedName call tracked) := by
  apply (accept (by decide)).bind
  intro held
  apply ite
  · apply (discard (accept (by decide))).seq
    apply (calls _).bind
    intro id
    exact make rfl nofun
  · apply (discard (accept (by decide))).seq
    exact calls _

theorem name (tracked : Bool) : OnCourse symbol (Parse.name call tracked) := by
  intro s
  refine .peekPair_bind ?_
  intro first second _ _
  refine ite (calls _) (ite (calls _) (ite ?_ ?_)) s
  · apply (calls .substitution).bind
    intro listed
    apply peek.bind
    intro letter
    apply (ensure unexpected).seq
    exact instantiate calls tracked listed
  · apply (unscopedName calls tracked).bind
    intro name
    apply peek.bind
    intro letter
    refine ite ?_ (pure name)
    apply (enlist name).seq
    exact instantiate calls tracked name

end Calls

theorem substitution : OnCourse symbol Parse.substitution := by
  apply (expect (by decide)).bind
  intro _ s
  refine .peek_bind ?_
  intro letter look
  refine .ite (fun isLower => ?_) fun _ => ?_
  · refine .orFault_bind ?_
    intro short _
    apply (Leads.advance_one look (.of_isLower isLower)).next
    intro _
    refine OnCourse.bind (make rfl nofun) ?_
    intro plain
    apply (abiTags plain).bind
    intro tagged
    apply (ite (pure ()) (enlist tagged)).seq
    exact pure tagged
  · apply (accept (by decide) s).next
    intro held
    refine ite (listed 0) ?_
    apply seqId.bind
    intro value
    apply (orFault _ _).bind
    intro index
    apply (expect (by decide)).seq
    exact listed index

end OnCourse
end Unmangle
