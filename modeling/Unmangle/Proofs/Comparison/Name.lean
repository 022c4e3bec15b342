import Unmangle.Proofs.Comparison.Template

/-!
# Names side by side
-/
namespace Unmangle.Comparison

variable {C : Comparison} {w : C.World}

namespace Follows

variable (law : C.Lawful) {call call' : Calls} (reads : C.Reads call call')
include law

theorem sourceName : C.Follows w Parse.sourceName Parse.sourceName C.name := by
  refine (identifierFrom law).bind ?_
  rintro _ _ ⟨text, bytes⟩ ⟨text', bytes'⟩ ⟨htext, hbytes⟩
  have same := Cursor.isSome_strip?_congr hbytes "_GLOBAL__N".toList
  dsimp only at same ⊢
  rw [← same]
  exact ite (fun _ => makeName law _) fun _ => make law (.name htext)

theorem abiTags {a b : NodeId} (h : C.name w a b) :
    C.Follows w (Parse.abiTags a) (Parse.abiTags b) C.name := by
  refine untilHolds_name law (fun _ => ?_) (fun _ base base' hbase => ?_) h
  · refine (lookingAt law "B").bind ?_
    rintro _ _ ahead _ rfl
    exact pure rfl
  · apply (expect law "B").seq
    intro _ later
    apply (identifier law).bind
    intro _ later' tag tag' htag
    exact make law (.abiTagged (law.name_mono (later.trans later') hbase) htag)

theorem component {scope scope' : Option NodeId} {a b : NodeId} (tracked : Bool)
    (hscope : Option.Rel (C.name w) scope scope') (h : C.name w a b) :
    C.Follows w (Parse.component scope a tracked) (Parse.component scope' b tracked) C.name := by
  apply Follows.bind (Q := C.name)
  · cases hscope with
    | some hscope => exact make law (.nestedName hscope h)
    | none => exact pure h
  intro _ _ node node' hnode
  apply (learn law tracked _).seq
  intro _ later
  exact pure (law.name_mono later hnode)

theorem resultless (tracked : Bool) :
    C.Follows w (Parse.resultless tracked) (Parse.resultless tracked) fun _ _ _ => True :=
  learn law tracked _

theorem refQualifier : C.Follows w Parse.refQualifier Parse.refQualifier fun _ => Eq := by
  refine (accept law "O").bind ?_
  rintro _ _ isRvalue _ rfl
  refine ite (fun _ => pure rfl) fun _ => (accept law "R").bind ?_
  rintro _ _ isLvalue _ rfl
  exact ite (fun _ => pure rfl) fun _ => pure rfl

theorem substitution : C.Follows w Parse.substitution Parse.substitution C.name := by
  apply (expect law "S").seq
  intro _ _
  refine (peek law).bind ?_
  rintro _ _ letter _ rfl
  refine ite (fun _ => ?_) fun _ => ?_
  · refine (orFault_self _ _).bind ?_
    rintro _ _ short _ rfl
    apply (advance law 1).seq
    intro _ _
    apply (make law (.abbreviation short)).bind
    intro _ _ plain plain' hplain
    apply (abiTags law hplain).bind
    intro _ later tagged tagged' htagged
    have same := law.name_eq_iff htagged (law.name_mono later hplain)
    simp only [same]
    apply (unlessHeld fun _ => enlist law htagged).seq
    intro _ later
    exact pure (law.name_mono later htagged)
  · refine (accept law "_").bind ?_
    rintro _ _ first _ rfl
    refine ite (fun _ => listed law 0) fun _ => (seqId law).bind ?_
    rintro _ _ number _ rfl
    refine (orFault_self _ _).bind ?_
    rintro _ _ index _ rfl
    apply (expect law "_").seq
    intro _ _
    exact listed law index

include reads

theorem lambdaParams : C.Follows w (Parse.unnamedTypeName.lambdaParams call)
    (Parse.unnamedTypeName.lambdaParams call') C.list := by
  refine (accept law "vE").bind ?_
  rintro _ _ none _ rfl
  refine Follows.bind (Q := C.Names) ?_ fun _ _ params params' hparams => makeList law hparams
  exact ite (fun _ => pure Names.nil) fun _ =>
    someNodes law (fun _ => accept law "E") fun _ => reads .type _

theorem unnamedTypeName :
    C.Follows w (Parse.unnamedTypeName call) (Parse.unnamedTypeName call') C.name := by
  refine (accept law "Ut").bind ?_
  rintro _ _ unnamed _ rfl
  refine ite (fun _ => ?_) fun _ => ?_
  · apply (number law false).bind
    intro _ _ count count' hcount
    apply (expect law "_").seq
    intro _ _
    exact make law (.unnamedType hcount)
  · refine (accept law "Ul").bind ?_
    rintro _ _ lambda _ rfl
    refine ite (fun _ => ?_) fun _ => unexpected law
    apply get.bind
    intro _ _ s s' hs
    have hdepth : s.work.scopes.levels.size = s'.work.scopes.levels.size :=
      congrArg Array.size hs.levels
    refine Follows.seq (modified law (fun t t' ht => ?_) fun _ => rfl) fun _ _ => ?_
    · exact ht.setFlags ht.templateArgsAllowed ht.forwardAllowed (congrArg some hdepth)
    refine Follows.bind
      (thenAlways law (lambdaParams law reads) (fun _ _ t t' ht => ?_) fun _ => rfl) fun _ _ params
        params' hparams => ?_
    · have htaken := ht.takeLevels hdepth
      exact htaken.setFlags ht.templateArgsAllowed ht.forwardAllowed hs.lambdaLevel
    · apply (number law false).bind
      intro _ later count count' hcount
      apply (expect law "_").seq
      intro _ later'
      exact make law (.closureType (law.list_mono (later.trans later') hparams) hcount)

omit reads in
theorem structorScope {a b : NodeId} (h : C.name w a b) :
    C.Follows w (Parse.structorScope a) (Parse.structorScope b) C.name := by
  apply (node law h).bind
  intro _ later node node' hnode
  cases hnode with
  | abbreviation short => exact make law (.expandedAbbreviation short)
  | _ => exact pure (law.name_mono later h)

theorem constructorName {a b : NodeId} (tracked : Bool) (h : C.name w a b) :
    C.Follows w (Parse.constructorName call a tracked) (Parse.constructorName call' b tracked)
      C.name := by
  refine (accept law "I").bind ?_
  rintro _ later inheriting _ rfl
  have h := law.name_mono later h
  refine (peek law).bind ?_
  rintro _ later kind _ rfl
  have h := law.name_mono later h
  apply (ensure rfl (unexpected law)).seq
  intro _ later
  have h := law.name_mono later h
  apply (advance law 1).seq
  intro _ later
  have h := law.name_mono later h
  apply (resultless law tracked).seq
  intro _ later
  have h := law.name_mono later h
  apply (onlyIf fun _ => discard (reads (.name tracked) _)).seq
  intro _ later
  exact make law (.constructorName (law.name_mono later h))

omit reads in
theorem destructorName {a b : NodeId} (tracked : Bool) (h : C.name w a b) :
    C.Follows w (Parse.destructorName a tracked) (Parse.destructorName b tracked) C.name := by
  apply (advance law 2).seq
  intro _ later
  have h := law.name_mono later h
  apply (resultless law tracked).seq
  intro _ later
  exact make law (.destructorName (law.name_mono later h))

theorem structorName {a b : NodeId} (tracked : Bool) (h : C.name w a b) :
    C.Follows w (Parse.structorName call a tracked) (Parse.structorName call' b tracked)
      C.name := by
  refine (accept law "C").bind ?_
  rintro _ later isConstructor _ rfl
  have h := law.name_mono later h
  refine ite (fun _ => constructorName law reads tracked h) fun _ => ?_
  refine (peekPair law).bind ?_
  rintro _ later pair _ rfl
  have h := law.name_mono later h
  exact ite (fun _ => destructorName law tracked h) fun _ => unexpected law

omit reads in
theorem listedPart {scope scope' : Option NodeId} {a b : NodeId} (tracked : Bool)
    (hscope : Option.Rel (C.name w) scope scope') (h : C.name w a b) :
    C.Follows w (Parse.nestedPart.listedPart tracked scope a)
      (Parse.nestedPart.listedPart tracked scope' b) fun v => Option.Rel (C.name v) := by
  apply (component law tracked hscope h).bind
  intro _ _ node node' hnode
  apply (enlist law hnode).seq
  intro _ later
  exact pure (.some (law.name_mono later hnode))

/-- Scopes that are alike lead to parts that are alike. -/
theorem nestedPart {scope scope' : Option NodeId} (tracked : Bool)
    (hscope : Option.Rel (C.name w) scope scope') :
    C.Follows w (Parse.nestedPart call tracked scope) (Parse.nestedPart call' tracked scope')
      fun v => Option.Rel (C.name v) := by
  refine (atEnd law).bind ?_
  rintro _ later ended _ rfl
  have hscope := law.option_mono later hscope
  apply (ensure rfl (throw _)).seq
  intro _ later
  have hscope := law.option_mono later hscope
  apply (discard (accept law "L")).seq
  intro _ later
  have hscope := law.option_mono later hscope
  refine (accept law "M").bind ?_
  rintro _ later isMember _ rfl
  have hscope := law.option_mono later hscope
  refine ite (fun _ => ?_) fun _ => ?_
  · apply (ensure (isSome_eq_of_rel hscope) (throw _)).seq
    intro _ later
    exact pure (law.option_mono later hscope)
  · refine (peekPair law).bind ?_
    rintro _ later pair _ rfl
    have hscope := law.option_mono later hscope
    split
    · apply (templateParam law).bind
      intro _ later _ _ hpart
      exact listedPart law tracked (law.option_mono later hscope) hpart
    · apply (orFault hscope _).bind
      intro _ _ name name' hname
      apply (instantiate law reads tracked hname).bind
      intro _ _ node node' hnode
      apply (enlist law hnode).seq
      intro _ later
      exact pure (.some (law.name_mono later hnode))
    · apply (reads .decltype _).bind
      intro _ later _ _ hpart
      exact listedPart law tracked (law.option_mono later hscope) hpart
    · apply (reads .decltype _).bind
      intro _ later _ _ hpart
      exact listedPart law tracked (law.option_mono later hscope) hpart
    · refine ite (fun _ => ?_) fun _ => ite (fun _ => ?_) fun _ => ?_
      · apply (reads .substitution _).bind
        intro _ later listed listed' hlisted
        have hscope := law.option_mono later hscope
        apply (component law tracked hscope hlisted).bind
        intro _ later node node' hnode
        have same := law.name_eq_iff hnode (law.name_mono later hlisted)
        simp only [same]
        apply (unlessHeld fun _ => enlist law hnode).seq
        intro _ later
        exact pure (.some (law.name_mono later hnode))
      · apply (orFault hscope _).bind
        intro _ _ inside inside' hinside
        apply (structorScope law hinside).bind
        intro _ _ inside inside' hinside
        apply (structorName law reads tracked hinside).bind
        intro _ later part part' hpart
        have hinside := law.name_mono later hinside
        apply (component law tracked (.some hinside) hpart).bind
        intro _ _ node node' hnode
        apply (abiTags law hnode).bind
        intro _ _ node node' hnode
        apply (enlist law hnode).seq
        intro _ later
        exact pure (.some (law.name_mono later hnode))
      · apply (reads (.unqualifiedName tracked) _).bind
        intro _ later _ _ hpart
        exact listedPart law tracked (law.option_mono later hscope) hpart

theorem nestedParts (tracked : Bool) :
    C.Follows w (Parse.nestedParts call tracked) (Parse.nestedParts call' tracked) C.name := by
  apply (expect law "N").seq
  intro _ _
  refine (qualifiers law).bind ?_
  rintro _ _ quals _ rfl
  refine (refQualifier law).bind ?_
  rintro _ _ ref _ rfl
  apply (learn law tracked _).seq
  intro _ _
  refine (accept law "St").bind ?_
  rintro _ _ inStd _ rfl
  refine Follows.bind (Q := fun v => Option.Rel (C.name v)) ?_ fun _ _ start start' hstart => ?_
  · exact ite (fun _ => map (makeName law "std") fun _ _ _ h => .some h) fun _ => pure .none
  · refine (untilHolds law ?_ (fun _ => accept law "E") ?_ hstart).bind fun _ _ complete complete'
      hcomplete => orFault hcomplete _
    · exact fun _ _ later _ _ => law.option_mono later
    · exact fun _ _ _ hscope => nestedPart law reads tracked hscope

theorem nestedName (pops : C.Pops) (tracked : Bool) :
    C.Follows w (Parse.nestedName call tracked) (Parse.nestedName call' tracked) C.name := by
  apply (nestedParts law reads tracked).bind
  intro _ _ complete complete' hcomplete
  apply (delist law pops).seq
  intro _ later
  exact pure (law.name_mono later hcomplete)

theorem localName (tracked : Bool) :
    C.Follows w (Parse.localName call tracked) (Parse.localName call' tracked) C.name := by
  apply (expect law "Z").seq
  intro _ _
  apply (reads .encoding _).bind
  intro _ _ encoding encoding' hencoding
  apply (expect law "E").seq
  intro _ later
  have hencoding := law.name_mono later hencoding
  refine (accept law "s").bind ?_
  rintro _ later isString _ rfl
  have hencoding := law.name_mono later hencoding
  refine ite (fun _ => ?_) fun _ => (accept law "d").bind ?_
  · apply (skipDiscriminator law).seq
    intro _ later
    have hencoding := law.name_mono later hencoding
    apply (makeName law "string literal").bind
    intro _ later _ _ hentity
    exact make law (.localName (law.name_mono later hencoding) hentity)
  · rintro _ later isDefault _ rfl
    have hencoding := law.name_mono later hencoding
    refine ite (fun _ => ?_) fun _ => ?_
    · apply (discard (number law true)).seq
      intro _ later
      have hencoding := law.name_mono later hencoding
      apply (expect law "_").seq
      intro _ later
      have hencoding := law.name_mono later hencoding
      apply (reads (.name tracked) _).bind
      intro _ later _ _ hentity
      exact make law (.localName (law.name_mono later hencoding) hentity)
    · apply (reads (.name tracked) _).bind
      intro _ later entity entity' hentity
      have hencoding := law.name_mono later hencoding
      apply (skipDiscriminator law).seq
      intro _ later
      exact make law (.localName (law.name_mono later hencoding) (law.name_mono later hentity))

theorem conversionName (tracked : Bool) :
    C.Follows w (Parse.operatorName.conversionName call tracked)
      (Parse.operatorName.conversionName call' tracked) C.name := by
  apply get.bind
  intro _ _ s s' hs
  refine Follows.seq (modified law (fun t t' ht => ?_) fun _ => rfl) fun _ _ => ?_
  · exact ht.setFlags rfl (congrArg (· || tracked) hs.forwardAllowed) ht.lambdaLevel
  · refine Follows.bind (thenAlways law (reads .type _) (fun _ _ t t' ht => ?_) fun _ => rfl) fun _
      _ type type' htype => ?_
    · exact ht.setFlags hs.templateArgsAllowed hs.forwardAllowed ht.lambdaLevel
    · apply (resultless law tracked).seq
      intro _ later
      exact make law (.conversionName (law.name_mono later htype))

theorem operatorName (tracked : Bool) :
    C.Follows w (Parse.operatorName call tracked) (Parse.operatorName call' tracked) C.name := by
  refine (peekPair law).bind ?_
  rintro _ _ ⟨first, second⟩ _ rfl
  dsimp only
  split
  · apply (advance law 2).seq
    intro _ _
    refine ite (fun _ => conversionName law reads tracked) fun _ => ?_
    refine (orFault_self _ _).bind ?_
    rintro _ _ words _ rfl
    exact makeName law words
  · refine (accept law "li").bind ?_
    rintro _ _ isLiteral _ rfl
    refine ite (fun _ => ?_) fun _ => ite (fun _ => ?_) fun _ => unexpected law
    · apply (sourceName law).bind
      intro _ _ _ _ hname
      exact make law (.literalOperator hname)
    · apply (advance law 2).seq
      intro _ _
      apply (sourceName law).bind
      intro _ _ _ _ hname
      exact make law (.conversionName hname)

omit reads in
theorem structuredBinding :
    C.Follows w Parse.structuredBinding Parse.structuredBinding C.name := by
  apply (advance law 2).seq
  intro _ _
  apply (someNodes law (fun _ => accept law "E") fun _ => sourceName law).bind
  intro _ _ names names' hnames
  apply (makeList law hnames).bind
  intro _ _ _ _ hlist
  exact make law (.structuredBinding hlist)

theorem unqualifiedName (tracked : Bool) :
    C.Follows w (Parse.unqualifiedName call tracked) (Parse.unqualifiedName call' tracked)
      C.name := by
  refine (peekPair law).bind ?_
  rintro _ _ ⟨first, second⟩ _ rfl
  refine Follows.bind (Q := C.name) ?_ fun _ _ name name' hname => abiTags law hname
  exact ite (fun _ => unnamedTypeName law reads) fun _ => ite (fun _ => sourceName law)
    fun _ => ite (fun _ => structuredBinding law) fun _ => reads (.operatorName tracked) _

theorem unscopedName (tracked : Bool) :
    C.Follows w (Parse.unscopedName call tracked) (Parse.unscopedName call' tracked) C.name := by
  refine (accept law "St").bind ?_
  rintro _ _ inStd _ rfl
  refine ite (fun _ => ?_) fun _ => ?_
  · apply (discard (accept law "L")).seq
    intro _ _
    apply (reads (.unqualifiedName tracked) _).bind
    intro _ _ _ _ hname
    exact make law (.stdName hname)
  · apply (discard (accept law "L")).seq
    intro _ _
    exact reads (.unqualifiedName tracked) _

theorem name (tracked : Bool) :
    C.Follows w (Parse.name call tracked) (Parse.name call' tracked) C.name := by
  refine (peekPair law).bind ?_
  rintro _ _ ⟨first, second⟩ _ rfl
  refine ite (fun _ => reads (.nestedName tracked) _) fun _ =>
    ite (fun _ => reads (.localName tracked) _) fun _ => ite (fun _ => ?_) fun _ => ?_
  · apply (reads .substitution _).bind
    intro _ _ listed listed' hlisted
    refine (peek law).bind ?_
    rintro _ later next _ rfl
    apply (ensure rfl (unexpected law)).seq
    intro _ later'
    exact instantiate law reads tracked (law.name_mono (later.trans later') hlisted)
  · apply (unscopedName law reads tracked).bind
    intro _ _ name name' hname
    refine (peek law).bind ?_
    rintro _ later next _ rfl
    have hname := law.name_mono later hname
    refine ite (fun _ => ?_) fun _ => pure hname
    apply (enlist law hname).seq
    intro _ later
    exact instantiate law reads tracked (law.name_mono later hname)

end Follows
end Unmangle.Comparison
