import Unmangle.Grammar.Name
import Unmangle.Proofs.Insulation.Basic

/-!
# Names apart from what is allowed around them

A template parameter is where it matters what is allowed. A conversion operator and a lambda
change it for their own types and change it back.
-/
namespace Unmangle

namespace ParseState.Sheltered

variable {outer inner s t s' t' : ParseState}

/-- It is decided alike in both parses whether a template parameter comes ahead. -/
theorem ahead_eq (h : Sheltered outer inner s t) (h' : Sheltered outer inner s' t')
    {level index : Nat} (param : Parse.paramPlace.run t = .ok (level, index) t') :
    (s'.forwardAllowed && level == 0) = (t'.forwardAllowed && level == 0) := by
  by_cases alike : s'.forwardAllowed = t'.forwardAllowed
  · rw [alike]
  · obtain ⟨differs, -, outside⟩ := h'.ahead.of_ne alike
    cases level with
    | zero => exact absurd (.ahead param differs outside) h.still
    | succ level => simp

/-- It is decided alike in both parses whether a template parameter is invented. -/
theorem lambda_eq (h : Sheltered outer inner s t) (h' : Sheltered outer inner s' t')
    {level index : Nat} (param : Parse.paramPlace.run t = .ok (level, index) t')
    (unknown : t'.work.scopes.argument? level index = none) :
    (s'.lambdaLevel == some level && decide (level ≤ t'.work.scopes.levels.size)) =
      (t'.lambdaLevel == some level && decide (level ≤ t'.work.scopes.levels.size)) := by
  by_cases alike : s'.lambdaLevel = t'.lambdaLevel
  · rw [alike]
  · obtain ⟨differs, there, outside⟩ := h'.lambda.of_ne alike
    by_cases below : level ≤ t'.work.scopes.levels.size
    · have apart (lambda : outer.lambdaLevel = some level ∨ inner.lambdaLevel = some level) : False :=
        h.still (.invented param unknown below differs outside lambda)
      rw [there, outside, beq_false_of_ne fun found => apart (.inl found),
        beq_false_of_ne fun found => apart (.inr found)]
    · simp [below]

end ParseState.Sheltered

namespace Parse.Blind

open ParseState

variable {outer inner : ParseState} {call : Calls} {α : Type}

theorem templateParam : Blind outer inner Parse.templateParam := by
  intro s t h
  apply (expect "T" s t h).bind
  intro _ s₁ t₁ read _ h₁
  apply (accept "L" s₁ t₁ h₁).bind
  intro deep s₂ t₂ read₁ _ h₂
  apply (ite ordinal (pure 0) s₂ t₂ h₂).bind
  intro level s₃ t₃ read₂ _ h₃
  apply (accept "_" s₃ t₃ h₃).bind
  intro first s₄ t₄ read₃ _ h₄
  apply (ite (pure 0) ordinal s₄ t₄ h₄).bind
  intro index s' t' read₄ _ h'
  refine .get ?_
  have param : Parse.paramPlace.run t = .ok (level, index) t' := by
    unfold Parse.paramPlace
    rw [run_bind_ok _ read, run_bind_ok _ read₁, run_bind_ok _ read₂, run_bind_ok _ read₃,
      run_bind_ok _ read₄, run_pure]
  have work : s'.work = t'.work := by rw [h'.same]; rfl
  rw [h.ahead_eq h' param, work]
  refine .ite (fun _ => ?_) fun _ => ?_
  · refine bind (make _) ?_ s' t' h'
    intro id
    apply (modified fun _ _ => rfl).seq
    exact pure id
  · split
    · exact make _ s' t' h'
    · rename_i unknown
      dsimp only
      rw [h.lambda_eq h' param unknown]
      refine (ite ?_ (throw _)) s' t' h'
      apply (ite (setScopes _) (pure ())).seq
      exact makeName _

/-- Behind a template parameter or a substitution it is decided alike in both parses whether
arguments belong to it. -/
theorem ifArgs {yes no : Parse α} (hyes : Blind outer inner yes) (hno : Blind outer inner no)
    {s t : ParseState} (h : Sheltered outer inner s t)
    (quiet : outer.templateArgsAllowed ≠ inner.templateArgsAllowed →
      t.templateArgsAllowed = inner.templateArgsAllowed → t.cursor.peekAt 0 ≠ 'I') :
    Agrees outer inner s t
      (do if (← get).templateArgsAllowed && (← Parse.peek) == 'I' then yes else no)
      (do if (← get).templateArgsAllowed && (← Parse.peek) == 'I' then yes else no) := by
  apply Agrees.get
  apply (peek s t h).bind
  intro next s' t' read _ h'
  cases read
  have same : (s.templateArgsAllowed && t.cursor.peekAt 0 == 'I') =
      (t.templateArgsAllowed && t.cursor.peekAt 0 == 'I') := by
    by_cases alike : s.templateArgsAllowed = t.templateArgsAllowed
    · rw [alike]
    · obtain ⟨differs, -, outside⟩ := h.args.of_ne alike
      rw [beq_false_of_ne (quiet differs outside), Bool.and_false, Bool.and_false]
  rw [same]
  exact ite hyes hno s' t h'

theorem sourceName : Blind outer inner Parse.sourceName := by
  apply identifierFrom.bind
  intro name
  exact ite (makeName _) (make _)

theorem abiTags (name : NodeId) : Blind outer inner (Parse.abiTags name) := by
  refine untilHolds ?_ ?_ name
  · apply (lookingAt "B").bind
    intro ahead
    exact pure _
  · intro tagged
    apply (expect "B").seq
    apply identifier.bind
    intro tag
    exact make _

theorem component (scope : Option NodeId) (part : NodeId) (tracked : Bool) :
    Blind outer inner (Parse.component scope part tracked) := by
  apply bind
  · cases scope with
    | some scope => exact make _
    | none => exact pure part
  intro node
  apply (learn _ _).seq
  exact pure node

theorem resultless (tracked : Bool) : Blind outer inner (Parse.resultless tracked) :=
  learn _ _

theorem structorScope (scope : NodeId) : Blind outer inner (Parse.structorScope scope) := by
  apply (node scope).bind
  intro found
  split
  · exact make _
  · exact pure scope

theorem listedPart (scope : Option NodeId) (part : NodeId) (tracked : Bool) :
    Blind outer inner (Parse.nestedPart.listedPart tracked scope part) := by
  apply (component scope part tracked).bind
  intro node
  apply (enlist node).seq
  exact pure (some node)

theorem refQualifier : Blind outer inner Parse.refQualifier := by
  apply (accept "O").bind
  intro held
  apply ite (pure _)
  apply (accept "R").bind
  intro held
  exact ite (pure _) (pure none)

theorem structuredBinding : Blind outer inner Parse.structuredBinding := by
  apply (advance 2).seq
  apply (someNodes (accept "E") sourceName).bind
  intro names
  apply (makeList names).bind
  intro list
  exact make _

theorem destructorName (scope : NodeId) (tracked : Bool) :
    Blind outer inner (Parse.destructorName scope tracked) := by
  apply (advance 2).seq
  apply (resultless tracked).seq
  exact make _

theorem substitution : Blind outer inner Parse.substitution := by
  apply (expect "S").seq
  apply peek.bind
  intro letter
  apply ite
  · apply (orFault _ _).bind
    intro short
    apply (advance 1).seq
    apply (make _).bind
    intro plain
    apply (abiTags plain).bind
    intro tagged
    apply (ite (pure ()) (enlist tagged)).seq
    exact pure tagged
  · apply (accept "_").bind
    intro held
    refine ite (listed 0) ?_
    apply seqId.bind
    intro value
    apply (orFault _ _).bind
    intro index
    apply (expect "_").seq
    exact listed index

section Calls

variable (calls : ∀ rule, Blind outer inner (call rule))
include calls

theorem scopedArg : Blind outer inner (Parse.scopedArg call) := by
  apply look fun _ _ => rfl
  intro s
  apply (setLevels _).bind
  intro _
  apply (thenAlways (calls .templateArg) fun _ _ => rfl).bind
  intro arg
  apply (node arg).bind
  intro found
  apply bind
  · split
    · exact make _
    · exact pure arg
  intro entry
  apply (addArgument entry).seq
  exact pure arg

theorem templateArgs (tracked : Bool) : Blind outer inner (Parse.templateArgs call tracked) := by
  apply (expect "I").seq
  apply (ite (setScopes _) (pure ())).seq
  apply (nodesUntil "E" (ite (scopedArg calls) (calls .templateArg))).bind
  intro args
  apply (makeList args).bind
  intro list
  exact make _

theorem templateArg : Blind outer inner (Parse.templateArg call) := by
  apply peekPair.bind
  intro pair
  split
  · apply (advance 1).seq
    apply (calls .expression).bind
    intro operand
    apply (expect "E").seq
    exact pure operand
  · apply (advance 1).seq
    apply (nodesUntil "E" (calls .templateArg)).bind
    intro args
    apply (makeList args).bind
    intro list
    exact make _
  · apply (advance 2).seq
    apply (calls .encoding).bind
    intro encoding
    apply (expect "E").seq
    exact pure encoding
  · exact calls .literal
  · exact calls .type

theorem instantiate (tracked : Bool) (name : NodeId) :
    Blind outer inner (Parse.instantiate call tracked name) := by
  apply (calls _).bind
  intro id
  apply (learn _ _).seq
  exact make _

theorem instantiateIfArgs (name : NodeId) :
    Blind outer inner (Parse.instantiateIfArgs call name) := by
  apply peek.bind
  intro letter
  exact ite (instantiate calls false name) (pure name)

/-- A lambda numbers its own template parameters, whatever lambda is around it. -/
theorem unnamedTypeName : Blind outer inner (Parse.unnamedTypeName call) := by
  apply (accept "Ut").bind
  intro held
  apply ite
  · apply (number false).bind
    intro digits
    apply (expect "_").seq
    exact make _
  · apply (accept "Ul").bind
    intro held
    refine ite ?_ unexpected
    intro s t h
    have work : s.work = t.work := by rw [h.same]; rfl
    refine .get ?_
    rw [work]
    refine Agrees.bind (.modified fun still => ?_) fun _ s' t' _ _ h' => ?_
    · exact ⟨by rw [h.same]; rfl, h.args, h.ahead, .inl rfl, still⟩
    · refine Agrees.bind (.thenAlways ?_ fun u v h'' still => ?_) fun params u v _ _ h'' => ?_
      · refine bind (accept "vE") ?_ s' t' h'
        intro held
        apply bind
        · exact ite (pure #[]) (someNodes (accept "E") (calls .type))
        exact makeList
      · exact ⟨by rw [h''.same]; rfl, h''.args, h''.ahead, h.lambda, still⟩
      · refine bind (number false) ?_ u v h''
        intro digits
        apply (expect "_").seq
        exact make _

theorem constructorName (scope : NodeId) (tracked : Bool) :
    Blind outer inner (Parse.constructorName call scope tracked) := by
  apply (accept "I").bind
  intro held
  apply peek.bind
  intro letter
  apply (ensure unexpected).seq
  apply (advance 1).seq
  apply (resultless tracked).seq
  apply (ite (discard (calls _)) (pure ())).seq
  exact make _

theorem structorName (scope : NodeId) (tracked : Bool) :
    Blind outer inner (Parse.structorName call scope tracked) := by
  apply (accept "C").bind
  intro isConstructor
  apply ite (constructorName calls scope tracked)
  apply peekPair.bind
  intro letters
  exact ite (destructorName scope tracked) unexpected

theorem nestedPart (tracked : Bool) (scope : Option NodeId) :
    Blind outer inner (Parse.nestedPart call tracked scope) := by
  apply atEnd.bind
  intro ended
  apply (ensure (throw _)).seq
  apply (discard (accept "L")).seq
  apply (accept "M").bind
  intro held
  apply ite
  · apply (ensure (throw _)).seq
    exact pure scope
  apply peekPair.bind
  intro pair
  split
  · apply templateParam.bind
    intro part
    exact listedPart scope part tracked
  · apply (orFault scope _).bind
    intro name
    apply (instantiate calls tracked name).bind
    intro node
    apply (enlist node).seq
    exact pure (some node)
  · apply (calls .decltype).bind
    intro part
    exact listedPart scope part tracked
  · apply (calls .decltype).bind
    intro part
    exact listedPart scope part tracked
  · refine ite ?_ (ite ?_ ?_)
    · apply (calls .substitution).bind
      intro listed
      apply (component scope listed tracked).bind
      intro node
      apply (ite (pure ()) (enlist node)).seq
      exact pure (some node)
    · apply (orFault scope _).bind
      intro outside
      apply (structorScope outside).bind
      intro inside
      apply (structorName calls inside tracked).bind
      intro structor
      apply (component (some inside) structor tracked).bind
      intro named
      apply (abiTags named).bind
      intro node
      apply (enlist node).seq
      exact pure (some node)
    · apply (calls _).bind
      intro part
      exact listedPart scope part tracked

theorem nestedName (tracked : Bool) : Blind outer inner (Parse.nestedName call tracked) := by
  apply bind
  · apply (expect "N").seq
    apply qualifiers.bind
    intro quals
    apply refQualifier.bind
    intro ref
    apply (learn _ _).seq
    apply (accept "St").bind
    intro held
    apply (ite (map (makeName "std")) (pure none)).bind
    intro start
    apply (untilHolds (accept "E") (nestedPart calls tracked) start).bind
    intro complete
    exact orFault complete _
  intro complete
  apply delist.seq
  exact pure complete

theorem localName (tracked : Bool) : Blind outer inner (Parse.localName call tracked) := by
  apply (expect "Z").seq
  apply (calls .encoding).bind
  intro encoding
  apply (expect "E").seq
  apply (accept "s").bind
  intro held
  apply ite
  · apply skipDiscriminator.seq
    apply (makeName _).bind
    intro name
    exact make _
  · apply (accept "d").bind
    intro held
    apply ite
    · apply (discard (number true)).seq
      apply (expect "_").seq
      apply (calls _).bind
      intro id
      exact make _
    · apply (calls _).bind
      intro entity
      apply skipDiscriminator.seq
      exact make _

/-- A conversion's type takes no arguments. A parameter may come ahead in it where that is
allowed around it, or where the name is the one of the encoding. -/
theorem conversionName (tracked : Bool) :
    Blind outer inner (Parse.operatorName.conversionName call tracked) := by
  intro s t h
  refine .get (Agrees.bind (.modified fun still => ?_) fun _ s' t' _ _ h' => ?_)
  · refine ⟨by rw [h.same]; rfl, .inl rfl, ?_, h.lambda, still⟩
    cases tracked with
    | true => exact .inl (by simp only [Bool.or_true])
    | false =>
      simp only [Bool.or_false]
      exact h.ahead
  · refine Agrees.bind (.thenAlways (calls .type s' t' h') fun u v h'' still => ?_) fun type u v _
      _ h'' => ?_
    · exact ⟨by rw [h''.same]; rfl, h.args, h.ahead, h''.lambda, still⟩
    · exact seq (resultless tracked) (make _) u v h''

theorem operatorName (tracked : Bool) : Blind outer inner (Parse.operatorName call tracked) := by
  apply peekPair.bind
  intro pair
  dsimp only
  split
  · apply (advance 2).seq
    apply ite (conversionName calls tracked)
    apply (orFault _ _).bind
    exact makeName
  · apply (accept "li").bind
    intro held
    apply ite
    · apply sourceName.bind
      intro name
      exact make _
    apply ite
    · apply (advance 2).seq
      apply sourceName.bind
      intro name
      exact make _
    · exact unexpected

theorem unqualifiedName (tracked : Bool) :
    Blind outer inner (Parse.unqualifiedName call tracked) := by
  apply peekPair.bind
  intro letters
  exact (ite (unnamedTypeName calls) <| ite sourceName <| ite structuredBinding (calls _)).bind
    abiTags

theorem unscopedName (tracked : Bool) : Blind outer inner (Parse.unscopedName call tracked) := by
  apply (accept "St").bind
  intro held
  apply ite
  · apply (discard (accept "L")).seq
    apply (calls _).bind
    intro id
    exact make _
  · apply (discard (accept "L")).seq
    exact calls _

theorem name (tracked : Bool) : Blind outer inner (Parse.name call tracked) := by
  apply peekPair.bind
  intro pair
  refine ite (calls _) (ite (calls _) (ite ?_ ?_))
  · apply (calls .substitution).bind
    intro listed
    apply peek.bind
    intro letter
    apply (ensure unexpected).seq
    exact instantiate calls tracked listed
  · apply (unscopedName calls tracked).bind
    intro name
    apply peek.bind
    intro letter
    refine ite ?_ (pure name)
    apply (enlist name).seq
    exact instantiate calls tracked name

end Calls

end Parse.Blind
end Unmangle
