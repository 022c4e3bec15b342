import Unmangle.Proofs.Comparison.Name

/-!
# Expressions side by side
-/
namespace Unmangle.Comparison

variable {C : Comparison} {w : C.World}

namespace Follows

variable (law : C.Lawful) {call call' : Calls} (reads : C.Reads call call')
include law

theorem numberedParam :
    C.Follows w Parse.functionParam.numbered Parse.functionParam.numbered C.name := by
  apply (discard (qualifiers law)).seq
  intro _ _
  apply (number law false).bind
  intro _ _ text text' htext
  apply (expect law "_").seq
  intro _ _
  exact make law (.functionParam htext)

theorem functionParam : C.Follows w Parse.functionParam Parse.functionParam C.name := by
  refine (accept law "fpT").bind ?_
  rintro _ _ isThis _ rfl
  refine ite (fun _ => makeName law _) fun _ => (accept law "fp").bind ?_
  rintro _ _ isInner _ rfl
  refine ite (fun _ => numberedParam law) fun _ => (accept law "fL").bind ?_
  rintro _ _ isOuter _ rfl
  refine ite (fun _ => ?_) fun _ => unexpected law
  apply (number law false).bind
  intro _ _ text text' htext
  apply (ensure (congrArg not (law.isEmpty htext)) (unexpected law)).seq
  intro _ _
  apply (expect law "p").seq
  intro _ _
  exact numberedParam law

include reads

omit law in
/-- An expression, as an optional one. -/
theorem someExpression :
    C.Follows w (some <$> call .expression) (some <$> call' .expression)
      fun v => Option.Rel (C.name v) :=
  map (reads .expression _) fun _ _ _ h => .some h

theorem fold : C.Follows w (Parse.fold call) (Parse.fold call') C.name := by
  apply (expect law "f").seq
  intro _ _
  apply (peek law).bind
  rintro _ _ letter _ rfl
  cases Parse.foldSide? letter with
  | none => exact unexpected law
  | some side =>
    apply (advance law 1).seq
    intro _ _
    apply (peekPair law).bind
    rintro _ _ letters _ rfl
    dsimp only
    cases Operator.find? letters.1 letters.2 with
    | none => exact unexpected law
    | some operator =>
      apply (ensure rfl (throw _)).seq
      intro _ _
      apply (advance law 2).seq
      intro _ _
      apply (reads .expression _).bind
      intro _ _ first first' hfirst
      apply Follows.bind (Q := fun v => Option.Rel (C.name v))
      · exact ite (fun _ => someExpression reads) fun _ => pure .none
      intro _ later second second' hsecond
      have hfirst := law.name_mono later hfirst
      obtain ⟨fromLeft, hasInit⟩ := side
      cases hsecond with
      | none => cases fromLeft <;> exact make law (.fold _ _ hfirst .none)
      | some hsecond =>
        cases fromLeft with
        | true => exact make law (.fold true _ hsecond (.some hfirst))
        | false => exact make law (.fold false _ hfirst (.some hsecond))

theorem initializers :
    C.Follows w (Parse.initializers call) (Parse.initializers call') C.Names := by
  refine (accept law "pi").bind ?_
  rintro _ _ present _ rfl
  refine ite (fun _ => nodesUntil law "E" fun _ => reads .expression _) fun _ => ?_
  apply (expect law "E").seq
  intro _ _
  exact pure Names.nil

theorem new (isGlobal isArray : Bool) :
    C.Follows w (Parse.new call isGlobal isArray) (Parse.new call' isGlobal isArray) C.name := by
  apply (nodesUntil law "_" fun _ => reads .expression _).bind
  intro _ _ placement placement' hplacement
  apply (reads .type _).bind
  intro _ later type type' htype
  have hplacement := law.names_mono later hplacement
  apply (initializers law reads).bind
  intro _ later inits inits' hinits
  have hplacement := law.names_mono later hplacement
  have htype := law.name_mono later htype
  apply (makeList law hplacement).bind
  intro _ later placement placement' hplacement
  apply (makeList law (law.names_mono later hinits)).bind
  intro _ later' inits inits' hinits
  exact make law (.new isGlobal isArray (law.list_mono later' hplacement)
    (law.name_mono (later.trans later') htype) hinits)

theorem conversionOperands :
    C.Follows w (Parse.conversionOperands call) (Parse.conversionOperands call') C.Names := by
  refine (accept law "_").bind ?_
  rintro _ _ isList _ rfl
  refine ite (fun _ => nodesUntil law "E" fun _ => reads .expression _) fun _ => ?_
  apply (reads .expression _).bind
  intro _ _ _ _ h
  exact pure (Names.nil.push h)

theorem conversion : C.Follows w (Parse.conversion call) (Parse.conversion call') C.name := by
  apply get.bind
  intro _ _ s s' hs
  refine Follows.seq (modified law (fun t t' ht => ?_) fun _ => rfl) fun _ _ => ?_
  · exact ht.setFlags rfl ht.forwardAllowed ht.lambdaLevel
  · refine Follows.bind (thenAlways law (reads .type _) (fun _ _ t t' ht => ?_) fun _ => rfl) fun _
      _ type type' htype => ?_
    · exact ht.setFlags hs.templateArgsAllowed ht.forwardAllowed ht.lambdaLevel
    · apply (conversionOperands law reads).bind
      intro _ later operands operands' hoperands
      have htype := law.name_mono later htype
      apply (makeList law hoperands).bind
      intro _ later _ _ hlist
      exact make law (.conversion (law.name_mono later htype) hlist)

/-- Two expressions, one after the other, for the two parts of a node. -/
theorem twoExpressions {node : NodeId → NodeId → Node}
    (hnode : ∀ v a a' b b', C.name v a a' → C.name v b b' →
      Node.Alike (C.likeness v) (node a b) (node a' b')) :
    C.Follows w
      (do
        let first ← call .expression
        let second ← call .expression
        Parse.make (node first second))
      (do
        let first ← call' .expression
        let second ← call' .expression
        Parse.make (node first second)) C.name := by
  apply (reads .expression _).bind
  intro _ _ _ _ hfirst
  apply (reads .expression _).bind
  intro v later _ _ hsecond
  exact make law (hnode v _ _ _ _ (law.name_mono later hfirst) hsecond)

/-- What an operator is applied to is read alike, whatever its kind is. -/
theorem operation (operator : Operator) (isGlobal : Bool) :
    C.Follows w (Parse.operation call operator isGlobal) (Parse.operation call' operator isGlobal)
      C.name := by
  unfold Parse.operation
  cases operator.form with
  | binary =>
    exact twoExpressions law reads fun _ _ _ _ _ hleft hright => .binary _ hleft hright
  | leading =>
    apply (reads .expression _).bind
    intro _ _ _ _ hoperand
    exact make law (.leading _ hoperand)
  | trailing =>
    apply (accept law "_").bind
    rintro _ _ isLeading _ rfl
    apply ite
    · intro _
      apply (reads .expression _).bind
      intro _ _ _ _ hoperand
      exact make law (.leading _ hoperand)
    · intro _
      apply (reads .expression _).bind
      intro _ _ _ _ hoperand
      exact make law (.trailing _ hoperand)
  | subscript =>
    exact twoExpressions law reads fun _ _ _ _ _ hbase hindex => .subscript hbase hindex
  | member =>
    exact twoExpressions law reads fun _ _ _ _ _ hleft hright => .member _ hleft hright
  | new isArray => exact new law reads isGlobal isArray
  | delete isArray =>
    apply (reads .expression _).bind
    intro _ _ _ _ hoperand
    exact make law (.delete _ _ hoperand)
  | call =>
    apply (reads .expression _).bind
    intro _ _ callee callee' hcallee
    apply (nodesUntil law "E" fun _ => reads .expression _).bind
    intro _ later args args' hargs
    have hcallee := law.name_mono later hcallee
    apply (makeList law hargs).bind
    intro _ later _ _ hlist
    exact make law (.call (law.name_mono later hcallee) hlist)
  | cast => exact conversion law reads
  | conditional =>
    apply (reads .expression _).bind
    intro _ _ condition condition' hcondition
    apply (reads .expression _).bind
    intro _ later yes yes' hyes
    have hcondition := law.name_mono later hcondition
    apply (reads .expression _).bind
    intro _ later no no' hno
    exact make law (.conditional (law.name_mono later hcondition) (law.name_mono later hyes) hno)
  | namedCast =>
    apply (reads .type _).bind
    intro _ _ type type' htype
    apply (reads .expression _).bind
    intro _ later operand operand' hoperand
    exact make law (.namedCast _ (law.name_mono later htype) hoperand)
  | ofType =>
    apply (reads .type _).bind
    intro _ _ _ _ htype
    exact make law (.enclosing _ htype)
  | ofExpression =>
    apply (reads .expression _).bind
    intro _ _ _ _ hoperand
    exact make law (.enclosing _ hoperand)

theorem bracedList :
    C.Follows w (Parse.bracedList call) (Parse.bracedList call') C.list := by
  apply (nodesUntil law "E" fun _ => reads .bracedExpression _).bind
  intro _ _ _ _ h
  exact makeList law h

omit reads in
theorem packSize : C.Follows w Parse.packSize Parse.packSize C.name := by
  refine (peek law).bind ?_
  rintro _ _ letter _ rfl
  split
  · apply (templateParam law).bind
    intro _ _ _ _ h
    exact make law (.packSize h)
  · apply (functionParam law).bind
    intro _ _ _ _ h
    exact make law (.enclosing _ h)
  · exact unexpected law

theorem behindWord (form : WordForm) :
    C.Follows w (Parse.behindWord call form) (Parse.behindWord call' form) C.name := by
  cases form with
  | initList =>
    apply (bracedList law reads).bind
    intro _ _ _ _ hlist
    exact make law (.initList .none hlist)
  | typedInitList =>
    apply (reads .type _).bind
    intro _ _ type type' htype
    apply (bracedList law reads).bind
    intro _ later _ _ hlist
    exact make law (.initList (.some (law.name_mono later htype)) hlist)
  | throw =>
    apply (reads .expression _).bind
    intro _ _ _ _ hoperand
    exact make law (.throw hoperand)
  | rethrow => exact makeName law _
  | noexcept =>
    apply (reads .expression _).bind
    intro _ _ _ _ hoperand
    exact make law (.enclosing _ hoperand)
  | expansion =>
    apply (reads .expression _).bind
    intro _ _ _ _ hoperand
    exact make law (.expansion hoperand)
  | packSize => exact packSize law
  | elementCount =>
    apply (nodesUntil law "E" fun _ => reads .templateArg _).bind
    intro _ _ args args' hargs
    apply (makeList law hargs).bind
    intro _ _ list list' hlist
    apply (make law (.elements hlist)).bind
    intro _ _ _ _ hpack
    exact make law (.enclosing _ hpack)

theorem wordExpression (isGlobal : Bool) :
    C.Follows w (Parse.wordExpression call isGlobal) (Parse.wordExpression call' isGlobal)
      C.name := by
  apply (peekPair law).bind
  rintro _ _ letters _ rfl
  dsimp only
  cases WordForm.ofLetters? letters.1 letters.2 with
  | none => exact reads (.unresolvedName isGlobal) _
  | some form =>
    apply (advance law 2).seq
    intro _ _
    exact behindWord law reads form

theorem expression : C.Follows w (Parse.expression call) (Parse.expression call') C.name := by
  refine (accept law "gs").bind ?_
  rintro _ _ isGlobal _ rfl
  apply get.bind
  intro _ _ s s' hs
  rw [← law.rest hs.cursor]
  apply (ensure rfl (throw _)).seq
  intro _ _
  refine (peekPair law).bind ?_
  rintro _ _ ⟨first, second⟩ _ rfl
  dsimp only
  split
  · exact reads .literal _
  · exact templateParam law
  · refine (peekAt law 2).bind ?_
    rintro _ _ third _ rfl
    exact ite (fun _ => functionParam law) fun _ => fold law reads
  · split
    · apply (advance law 2).seq
      intro _ _
      exact operation law reads _ isGlobal
    · exact wordExpression law reads isGlobal

theorem initializer (form : InitializerForm) :
    C.Follows w (Parse.initializer call form) (Parse.initializer call' form) C.name := by
  cases form with
  | field =>
    apply (sourceName law).bind
    intro _ _ field field' hfield
    apply (reads .bracedExpression _).bind
    intro _ later _ _ hvalue
    exact make law (.fieldInit (law.name_mono later hfield) hvalue)
  | element =>
    apply (reads .expression _).bind
    intro _ _ index index' hindex
    apply (reads .bracedExpression _).bind
    intro _ later _ _ hvalue
    exact make law (.indexInit (law.name_mono later hindex) hvalue)
  | range =>
    apply (reads .expression _).bind
    intro _ _ first first' hfirst
    apply (reads .expression _).bind
    intro _ later last last' hlast
    have hfirst := law.name_mono later hfirst
    apply (reads .bracedExpression _).bind
    intro _ later _ _ hvalue
    exact make law (.rangeInit (law.name_mono later hfirst) (law.name_mono later hlast) hvalue)

theorem bracedExpression :
    C.Follows w (Parse.bracedExpression call) (Parse.bracedExpression call') C.name := by
  apply (peekPair law).bind
  rintro _ _ letters _ rfl
  dsimp only
  cases InitializerForm.ofLetters? letters.1 letters.2 with
  | none => exact reads .expression _
  | some form =>
    apply (advance law 2).seq
    intro _ _
    exact initializer law reads form

theorem simpleId : C.Follows w (Parse.simpleId call) (Parse.simpleId call') C.name := by
  apply (sourceName law).bind
  intro _ _ _ _ h
  exact instantiateIfArgs law reads h

theorem simpleIds {a b : NodeId} (h : C.name w a b) :
    C.Follows w (Parse.simpleIds call a) (Parse.simpleIds call' b) C.name := by
  refine untilHolds_name law (fun _ => accept law "E") (fun _ scope scope' hscope => ?_) h
  apply (simpleId law reads).bind
  intro _ later _ _ hname
  exact make law (.qualifiedName (law.name_mono later hscope) hname)

omit reads in
/-- A name looked up globally where that is asked. -/
theorem globalIf (isGlobal : Bool) {a b : NodeId} (h : C.name w a b) :
    C.Follows w (if isGlobal then Parse.make (.globalName a) else Pure.pure a)
      (if isGlobal then Parse.make (.globalName b) else Pure.pure b) C.name :=
  ite (fun _ => make law (.globalName h)) fun _ => pure h

theorem namedScopes (isGlobal : Bool) :
    C.Follows w (Parse.namedScopes call isGlobal) (Parse.namedScopes call' isGlobal) C.name := by
  apply (simpleId law reads).bind
  intro _ _ _ _ hname
  apply (globalIf law isGlobal hname).bind
  intro _ _ _ _ h
  exact simpleIds law reads h

theorem typeScope : C.Follows w (Parse.typeScope call) (Parse.typeScope call') C.name := by
  apply (reads .unresolvedType _).bind
  intro _ _ _ _ h
  exact instantiateIfArgs law reads h

/-- The last part of a name behind its scope. -/
theorem lastPart {a b : NodeId} (h : C.name w a b) :
    C.Follows w (do Parse.make (.qualifiedName a (← call .baseUnresolvedName)))
      (do Parse.make (.qualifiedName b (← call' .baseUnresolvedName))) C.name := by
  apply (reads .baseUnresolvedName _).bind
  intro _ later _ _ hbase
  exact make law (.qualifiedName (law.name_mono later h) hbase)

theorem unresolvedName (isGlobal : Bool) :
    C.Follows w (Parse.unresolvedName call isGlobal) (Parse.unresolvedName call' isGlobal)
      C.name := by
  refine (accept law "srN").bind ?_
  rintro _ _ isNested _ rfl
  refine ite (fun _ => ?_) fun _ => (accept law "sr").bind ?_
  · apply (typeScope law reads).bind
    intro _ _ type type' htype
    apply (simpleIds law reads htype).bind
    intro _ _ _ _ h
    exact lastPart law reads h
  · rintro _ _ isScoped _ rfl
    refine ite (fun _ => (peek law).bind ?_) fun _ => ?_
    · rintro _ _ first _ rfl
      refine Follows.bind (Q := C.name) ?_ fun _ _ _ _ h => lastPart law reads h
      exact ite (fun _ => namedScopes law reads isGlobal) fun _ => typeScope law reads
    · apply (reads .baseUnresolvedName _).bind
      intro _ _ _ _ h
      exact globalIf law isGlobal h

theorem unresolvedType :
    C.Follows w (Parse.unresolvedType call) (Parse.unresolvedType call') C.name := by
  refine (peek law).bind ?_
  rintro _ _ letter _ rfl
  split
  · apply (templateParam law).bind
    intro _ _ param param' hparam
    apply (enlist law hparam).seq
    intro _ later
    exact pure (law.name_mono later hparam)
  · apply (reads .decltype _).bind
    intro _ _ type type' htype
    apply (enlist law htype).seq
    intro _ later
    exact pure (law.name_mono later htype)
  · exact reads .substitution _

theorem baseUnresolvedName :
    C.Follows w (Parse.baseUnresolvedName call) (Parse.baseUnresolvedName call') C.name := by
  refine (peek law).bind ?_
  rintro _ _ first _ rfl
  refine ite (fun _ => simpleId law reads) fun _ => (accept law "dn").bind ?_
  rintro _ _ isDestructor _ rfl
  refine ite (fun _ => (peek law).bind ?_) fun _ => ?_
  · rintro _ _ first _ rfl
    refine Follows.bind (Q := C.name) ?_ fun _ _ _ _ h => make law (.destroyed h)
    exact ite (fun _ => simpleId law reads) fun _ => reads .unresolvedType _
  · apply (discard (accept law "on")).seq
    intro _ _
    apply (reads (.operatorName false) _).bind
    intro _ _ _ _ h
    exact instantiateIfArgs law reads h

end Follows
end Unmangle.Comparison
