import Unmangle.Proofs.Comparison.Step

/-!
# Template arguments side by side

-/
namespace Unmangle.Comparison

variable {C : Comparison} {w : C.World}

namespace Follows

variable (law : C.Lawful) {call call' : Calls} (reads : C.Reads call call')
include law

theorem ordinal : C.Follows w Parse.ordinal Parse.ordinal fun _ => Eq := by
  refine (decimal law).bind ?_
  rintro _ _ number _ rfl
  refine (orFault_self _ _).bind ?_
  rintro _ _ successor _ rfl
  apply (expect law "_").seq
  intro _ _
  exact pure rfl

/-- A parameter finds arguments that are alike, or waits on both sides. -/
theorem templateParam : C.Follows w Parse.templateParam Parse.templateParam C.name := by
  apply (expect law "T").seq
  intro _ _
  refine (accept law "L").bind ?_
  rintro _ _ deeper _ rfl
  refine (ite (fun _ => ordinal law) fun _ => pure rfl).bind ?_
  rintro _ _ level _ rfl
  refine (accept law "_").bind ?_
  rintro _ _ first _ rfl
  refine (ite (fun _ => pure rfl) fun _ => ordinal law).bind ?_
  rintro _ _ index _ rfl
  apply get.bind
  intro _ _ s s' hs
  rw [← hs.forwardAllowed]
  refine ite (fun _ => ?_) fun _ => ?_
  · apply (make law (.forwardParam index .none)).bind
    intro _ _ id id' hid
    apply Follows.seq
      (modified law (fun _ _ ht => ht.setForward (ht.forward.push hid)) fun _ => rfl)
    intro _ later
    exact pure (law.name_mono later hid)
  · have harg := hs.argument? level index
    generalize s.work.scopes.argument? level index = o at harg ⊢
    generalize s'.work.scopes.argument? level index = o' at harg ⊢
    cases harg with
    | some htarget => exact make law (.templateParam htarget)
    | none =>
      dsimp only
      rw [← hs.lambdaLevel, ← hs.levels]
      refine ite (fun _ => ?_) fun _ => throw _
      refine (onlyIf fun _ => ?_).seq fun _ _ => makeName law _
      exact setScopes law rfl hs.outer

include reads

theorem scopedArg : C.Follows w (Parse.scopedArg call) (Parse.scopedArg call') C.name := by
  apply get.bind
  intro _ _ s s' hs
  apply (setLevels law #[]).seq
  intro _ _
  apply Follows.bind
    (thenAlways law (reads .templateArg _) (fun _ _ _ _ ht => ht.setLevels hs.levels) fun _ => rfl)
  intro _ _ arg arg' harg
  apply (node law harg).bind
  intro _ later node node' hnode
  have harg := law.name_mono later harg
  apply Follows.bind (Q := C.name)
  · cases hnode with
    | argumentPack elements => exact make law (.parameterPack elements)
    | _ => exact pure harg
  intro _ later entry entry' hentry
  apply (addArgument law hentry).seq
  intro _ later'
  exact pure (law.name_mono (later.trans later') harg)

theorem templateArgs (tracked : Bool) :
    C.Follows w (Parse.templateArgs call tracked) (Parse.templateArgs call' tracked) C.name := by
  apply (expect law "I").seq
  intro _ _
  apply (onlyIf fun _ => setScopes law rfl Names.nil).seq
  intro _ _
  refine (nodesUntil law "E" fun _ => ?_).bind fun _ _ ids ids' hids => ?_
  · exact ite (fun _ => scopedArg law reads) fun _ => reads .templateArg _
  · apply (makeList law hids).bind
    intro _ _ _ _ hargs
    exact make law (.templateArgs hargs)

theorem templateArg :
    C.Follows w (Parse.templateArg call) (Parse.templateArg call') C.name := by
  refine (peekPair law).bind ?_
  rintro _ _ pair _ rfl
  split
  · apply (advance law 1).seq
    intro _ _
    apply (reads .expression _).bind
    intro _ _ _ _ hid
    apply (expect law "E").seq
    intro _ later
    exact pure (law.name_mono later hid)
  · apply (advance law 1).seq
    intro _ _
    apply (nodesUntil law "E" fun _ => reads .templateArg _).bind
    intro _ _ _ _ hids
    apply (makeList law hids).bind
    intro _ _ _ _ hargs
    exact make law (.argumentPack hargs)
  · apply (advance law 2).seq
    intro _ _
    apply (reads .encoding _).bind
    intro _ _ _ _ hid
    apply (expect law "E").seq
    intro _ later
    exact pure (law.name_mono later hid)
  · exact reads .literal _
  · exact reads .type _

theorem instantiate (tracked : Bool) {a b : NodeId} (h : C.name w a b) :
    C.Follows w (Parse.instantiate call tracked a) (Parse.instantiate call' tracked b) C.name := by
  apply (reads (.templateArgs tracked) _).bind
  intro _ later args args' hargs
  apply (learn law tracked _).seq
  intro _ later'
  exact make law (.instantiation (law.name_mono (later.trans later') h) (law.name_mono later' hargs))

theorem instantiateIfArgs {a b : NodeId} (h : C.name w a b) :
    C.Follows w (Parse.instantiateIfArgs call a) (Parse.instantiateIfArgs call' b) C.name := by
  refine (peek law).bind ?_
  rintro _ later first _ rfl
  have h := law.name_mono later h
  exact ite (fun _ => instantiate law reads false h) fun _ => pure h

end Follows
end Unmangle.Comparison
