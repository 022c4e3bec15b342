import Unmangle.Proofs.Comparison.Name

/-!
# Types side by side
-/
namespace Unmangle.Comparison

variable {C : Comparison} {w : C.World}

namespace Follows

variable (law : C.Lawful) {call call' : Calls} (reads : C.Reads call call')
include law

theorem listing {p p' : Parse NodeId} (h : C.Follows w p p' C.name) :
    C.Follows w (Parse.listing p) (Parse.listing p') C.name := by
  apply h.bind
  intro _ _ id id' hid
  apply (enlist law hid).seq
  intro _ later
  exact pure (law.name_mono later hid)

theorem qualifiesFunction :
    C.Follows w Parse.qualifiesFunction Parse.qualifiesFunction fun _ => Eq := by
  apply get.bind
  intro _ _ s s' hs
  obtain ⟨-, hbehind⟩ := law.spanWhile hs.cursor Parse.isQualifier
  dsimp only
  rw [law.peekAt hbehind 0, law.peekAt hbehind 1]
  split <;> exact pure rfl

theorem binaryFloat : C.Follows w Parse.binaryFloat Parse.binaryFloat C.name := by
  apply (advance law 2).seq
  intro _ _
  apply (number law false).bind
  intro _ _ width width' hwidth
  apply (ensure (congrArg not (law.isEmpty hwidth)) (unexpected law)).seq
  intro _ _
  apply (expect law "_").seq
  intro _ _
  exact make law (.binaryFloat hwidth)

include reads

theorem parameterType :
    C.Follows w (Parse.parameterType call) (Parse.parameterType call') C.name := by
  apply (templateParam law).bind
  intro _ _ param param' hparam
  apply get.bind
  intro _ later s s' hs
  have hparam := law.name_mono later hparam
  refine (peek law).bind ?_
  rintro _ later next _ rfl
  have hparam := law.name_mono later hparam
  rw [← hs.templateArgsAllowed]
  refine ite (fun _ => ?_) fun _ => pure hparam
  apply (enlist law hparam).seq
  intro _ later
  exact instantiate law reads false (law.name_mono later hparam)

theorem substitutionType :
    C.Follows w (Parse.substitutionType call) (Parse.substitutionType call') C.name := by
  apply (reads .substitution _).bind
  intro _ _ listed listed' hlisted
  apply get.bind
  intro _ later s s' hs
  have hlisted := law.name_mono later hlisted
  refine (peek law).bind ?_
  rintro _ later next _ rfl
  have hlisted := law.name_mono later hlisted
  rw [← hs.templateArgsAllowed]
  exact ite (fun _ => listing law (instantiate law reads false hlisted)) fun _ => pure hlisted

theorem wrappedType {wrap : NodeId → Node}
    (hwrap : ∀ v a b, C.name v a b → Node.Alike (C.likeness v) (wrap a) (wrap b)) :
    C.Follows w (Parse.wrappedType call wrap) (Parse.wrappedType call' wrap) C.name := by
  apply (advance law 1).seq
  intro _ _
  apply (reads .type _).bind
  intro v _ a b htype
  exact make law (hwrap v a b htype)

theorem type : C.Follows w (Parse.type call) (Parse.type call') C.name := by
  apply (peekPair law).bind
  rintro _ _ letters _ rfl
  dsimp only
  cases TypeKind.ofLetters letters.1 letters.2 with
  | builtin words =>
    apply (advance law 1).seq
    intro _ _
    exact makeName law words
  | extended words =>
    apply (advance law 2).seq
    intro _ _
    exact makeName law words
  | listed rule => exact listing law (reads rule _)
  | qualified =>
    apply listing law
    apply (qualifiesFunction law).bind
    rintro _ _ isFunction _ rfl
    exact ite (fun _ => reads .functionType _) fun _ => reads .qualifiedType _
  | vendor =>
    apply (advance law 1).seq
    intro _ _
    apply listing law
    apply (identifier law).bind
    intro _ _ _ _ hname
    exact make law (.name hname)
  | binaryFloat => exact listing law (binaryFloat law)
  | expansion =>
    apply (advance law 2).seq
    intro _ _
    apply listing law
    apply (reads .type _).bind
    intro _ _ _ _ htype
    exact make law (.expansion htype)
  | parameter => exact listing law (parameterType law reads)
  | pointer => exact listing law (wrappedType law reads fun _ _ _ h => .pointer h)
  | reference kind => exact listing law (wrappedType law reads fun _ _ _ h => .reference kind h)
  | trailing words =>
    exact listing law (wrappedType law reads fun _ _ _ h => .trailingQualified words h)
  | substitution => exact substitutionType law reads
  | unknown => exact unexpected law

theorem qualifiedType :
    C.Follows w (Parse.qualifiedType call) (Parse.qualifiedType call') C.name := by
  refine (accept law "U").bind ?_
  rintro _ _ isVendor _ rfl
  refine ite (fun _ => ?_) fun _ => (qualifiers law).bind ?_
  · apply (identifier law).bind
    intro _ _ text text' htext
    apply (reads .qualifiedType _).bind
    intro _ _ _ _ htype
    exact make law (.vendorQualified htype htext)
  · rintro _ _ quals _ rfl
    apply (reads .type _).bind
    intro _ _ type type' htype
    exact ite (fun _ => pure htype) fun _ => make law (.qualified quals htype)

theorem exceptionSpec :
    C.Follows w (Parse.exceptionSpec call) (Parse.exceptionSpec call')
      fun v => Option.Rel (C.name v) := by
  refine (accept law "Do").bind ?_
  rintro _ _ isPlain _ rfl
  refine ite (fun _ => map (makeName law _) fun _ _ _ h => .some h) fun _ =>
    (accept law "DO").bind ?_
  rintro _ _ isComputed _ rfl
  refine ite (fun _ => ?_) fun _ => (accept law "Dw").bind ?_
  · apply (reads .expression _).bind
    intro _ _ condition condition' hcondition
    apply (expect law "E").seq
    intro _ later
    exact map (make law (.noexceptSpec (law.name_mono later hcondition))) fun _ _ _ h => .some h
  · rintro _ _ isThrow _ rfl
    refine ite (fun _ => ?_) fun _ => pure .none
    apply (nodesUntil law "E" fun _ => reads .type _).bind
    intro _ _ types types' htypes
    apply (makeList law htypes).bind
    intro _ _ _ _ hlist
    exact map (make law (.throwSpec hlist)) fun _ _ _ h => .some h

omit reads in
theorem atParamsEnd : C.Follows w Parse.atParamsEnd Parse.atParamsEnd fun _ => Eq := by
  refine (lookingAt law "E").bind ?_
  rintro _ _ ended _ rfl
  refine ite (fun _ => pure rfl) fun _ => (lookingAt law "RE").bind ?_
  rintro _ _ ended _ rfl
  exact ite (fun _ => pure rfl) fun _ => lookingAt law "OE"

theorem functionParams :
    C.Follows w (Parse.functionParams call) (Parse.functionParams call') C.Names := by
  refine untilHolds law (fun _ _ later _ _ => law.names_mono later) (fun _ => atParamsEnd law)
    (fun _ params params' hparams => ?_) Names.nil
  refine (accept law "v").bind ?_
  rintro _ later isVoid _ rfl
  have hparams := law.names_mono later hparams
  refine ite (fun _ => pure hparams) fun _ => ?_
  apply (reads .type _).bind
  intro _ later _ _ htype
  exact pure ((law.names_mono later hparams).push htype)

theorem functionType :
    C.Follows w (Parse.functionType call) (Parse.functionType call') C.name := by
  refine (qualifiers law).bind ?_
  rintro _ _ quals _ rfl
  apply (exceptionSpec law reads).bind
  intro _ _ exception exception' hexception
  apply (discard (accept law "Dx")).seq
  intro _ later
  have hexception := law.option_mono later hexception
  apply (expect law "F").seq
  intro _ later
  have hexception := law.option_mono later hexception
  apply (discard (accept law "Y")).seq
  intro _ later
  have hexception := law.option_mono later hexception
  apply (reads .type _).bind
  intro _ later result result' hresult
  have hexception := law.option_mono later hexception
  apply (functionParams law reads).bind
  intro _ later params params' hparams
  have hexception := law.option_mono later hexception
  have hresult := law.name_mono later hresult
  refine (refQualifier law).bind ?_
  rintro _ later ref _ rfl
  have hexception := law.option_mono later hexception
  have hresult := law.name_mono later hresult
  have hparams := law.names_mono later hparams
  apply (expect law "E").seq
  intro _ later
  apply (makeList law (law.names_mono later hparams)).bind
  intro _ later' list list' hlist
  have later := later.trans later'
  exact make law
    (.functionType quals ref (law.name_mono later hresult) hlist (law.option_mono later hexception))

theorem computedDimension :
    C.Follows w (Parse.computedDimension call) (Parse.computedDimension call')
      fun v => Option.Rel (C.name v) := by
  refine (accept law "_").bind ?_
  rintro _ _ isMissing _ rfl
  refine ite (fun _ => pure .none) fun _ => ?_
  apply (reads .expression _).bind
  intro _ _ size size' hsize
  apply (expect law "_").seq
  intro _ later
  exact pure (.some (law.name_mono later hsize))

theorem arrayDimension :
    C.Follows w (Parse.arrayDimension call) (Parse.arrayDimension call')
      fun v => Option.Rel (C.name v) := by
  refine (peek law).bind ?_
  rintro _ _ first _ rfl
  refine ite (fun _ => ?_) fun _ => computedDimension law reads
  apply (number law false).bind
  intro _ _ text text' htext
  apply (expect law "_").seq
  intro _ _
  apply (make law (.name htext)).bind
  intro _ _ _ _ hid
  exact pure (.some hid)

theorem arrayType : C.Follows w (Parse.arrayType call) (Parse.arrayType call') C.name := by
  apply (expect law "A").seq
  intro _ _
  apply (arrayDimension law reads).bind
  intro _ _ dimension dimension' hdimension
  apply (reads .type _).bind
  intro _ later _ _ htype
  exact make law (.array htype (law.option_mono later hdimension))

theorem memberPointerType :
    C.Follows w (Parse.memberPointerType call) (Parse.memberPointerType call') C.name := by
  apply (expect law "M").seq
  intro _ _
  apply (reads .type _).bind
  intro _ _ scope scope' hscope
  apply (reads .type _).bind
  intro _ later _ _ hmember
  exact make law (.memberPointer (law.name_mono later hscope) hmember)

omit reads in
theorem typeKeyword : C.Follows w Parse.typeKeyword Parse.typeKeyword fun _ => Eq := by
  refine (accept law "Ts").bind ?_
  rintro _ _ isStruct _ rfl
  refine ite (fun _ => pure rfl) fun _ => (accept law "Tu").bind ?_
  rintro _ _ isUnion _ rfl
  refine ite (fun _ => pure rfl) fun _ => (accept law "Te").bind ?_
  rintro _ _ isEnum _ rfl
  exact ite (fun _ => pure rfl) fun _ => pure rfl

theorem namedType : C.Follows w (Parse.namedType call) (Parse.namedType call') C.name := by
  refine (typeKeyword law).bind ?_
  rintro _ _ keyword _ rfl
  apply (reads (.name false) _).bind
  intro _ _ name name' hname
  split
  · exact make law (.elaborated _ hname)
  · exact pure hname

theorem decltype : C.Follows w (Parse.decltype call) (Parse.decltype call') C.name := by
  refine (accept law "Dt").bind ?_
  rintro _ _ isId _ rfl
  refine Follows.bind (Q := fun _ => Eq) ?_ ?_
  · exact ite (fun _ => pure rfl) fun _ => accept law "DT"
  · rintro _ _ opened _ rfl
    apply (ensure rfl (unexpected law)).seq
    intro _ _
    apply (reads .expression _).bind
    intro _ _ inner inner' hinner
    apply (expect law "E").seq
    intro _ later
    exact make law (.enclosing "decltype" (law.name_mono later hinner))

theorem vectorType : C.Follows w (Parse.vectorType call) (Parse.vectorType call') C.name := by
  apply (expect law "Dv").seq
  intro _ _
  refine (peek law).bind ?_
  rintro _ _ first _ rfl
  refine ite (fun _ => ?_) fun _ => ?_
  · apply (number law false).bind
    intro _ _ text text' htext
    apply (make law (.name htext)).bind
    intro _ _ dimension dimension' hdimension
    apply (expect law "_").seq
    intro _ later
    have hdimension := law.name_mono later hdimension
    refine (accept law "p").bind ?_
    rintro _ later isPixel _ rfl
    have hdimension := law.name_mono later hdimension
    refine ite (fun _ => make law (.pixelVector hdimension)) fun _ => ?_
    apply (reads .type _).bind
    intro _ later _ _ htype
    exact make law (.vector htype (.some (law.name_mono later hdimension)))
  · apply (computedDimension law reads).bind
    intro _ _ dimension dimension' hdimension
    apply (reads .type _).bind
    intro _ later _ _ htype
    exact make law (.vector htype (law.option_mono later hdimension))

end Follows
end Unmangle.Comparison
