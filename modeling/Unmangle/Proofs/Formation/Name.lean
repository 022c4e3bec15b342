import Unmangle.Grammar.Name
import Unmangle.Proofs.Formation.Token

/-!
# Well-formed names

A name stands for itself, with tags behind it or inside another, unless it is a reference to
something read before. The first part of a name is never one, so no name at the beginning of a
symbol is spelled as nothing.
-/
namespace Unmangle

/-- What an operator is called, and how it is spelled in an expression. -/
theorem Operator.plain {first second : Char} {operator : Operator}
    (found : Operator.find? first second = some operator) :
    Plain operator.symbol ∧ ∀ words ∈ operator.name, Plain words ∧ words ≠ "" := by
  have all : ∀ operator ∈ Operator.all,
      Plain operator.symbol ∧ ∀ words ∈ operator.name, Plain words ∧ words ≠ "" := by
    decide +kernel
  exact all operator (List.mem_of_find?_eq_some found)

variable {symbol : ByteArray} {regular : Prop} {call : Calls} {s : ParseState}

namespace Forms

theorem sourceName :
    Forms symbol regular Parse.sourceName s fun id t => t.work.tree.Holds .part id := by
  apply identifierFrom.bind
  intro r t _ named
  refine .ite (fun _ => ?_) fun _ => ?_
  · exact makeName ⟨by decide, by decide⟩
  · obtain ⟨-, -, -, called⟩ := named
    exact make_shape .part rfl called

/-- Tags stand behind a name, and a name with tags is one. -/
theorem abiTags {name : NodeId} (part : s.work.tree.Holds .part name) :
    Forms symbol regular (Parse.abiTags name) s fun id t => t.work.tree.Holds .part id := by
  refine .untilHolds (fun base u part => ?_) (fun base u part => ?_) part
  · exact (KeepsForm.lookingAt "B").bind (fun _ => .pure _) u |>.weaken fun _ _ stays _ =>
      part.stays stays
  · apply (expect "B").bind
    intro _ v stays _
    apply identifier.bind
    intro tag w stays' named
    obtain ⟨start, stop, rfl, -⟩ := named
    exact make_shape .part rfl ⟨(part.stays stays).stays stays', trivial⟩

/-- A component inside another, or the component alone. -/
theorem component (scope : Option NodeId) (part : NodeId) (tracked : Bool) :
    Forms symbol regular (Parse.component scope part tracked) s fun id t =>
      (scope = none → id = part) ∧ (scope ≠ none → t.work.tree.Holds .part id) := by
  refine bind (Q := fun id t => (scope = none → id = part) ∧
    (scope ≠ none → t.work.tree.Holds .part id)) ?_ fun id t _ known => ?_
  · cases scope with
    | none => exact .pure ⟨fun _ => rfl, fun some => absurd rfl some⟩
    | some scope =>
      exact weaken (make_shape .part rfl trivial) fun _ _ _ part => ⟨nofun, fun _ => part⟩
  · apply (KeepsForm.learn _ _ t).bind
    intro _ u stays _
    exact .pure ⟨known.1, fun some => (known.2 some).stays stays⟩

/-- Nothing is in scope before the first part of a name, so no template parameter comes there. -/
theorem templateParam :
    Forms symbol regular Parse.templateParam s fun _ _ => ¬s.Fresh := by
  have ordinal (u : ParseState) : Forms symbol regular Parse.ordinal u fun _ t => u.Moved t := by
    apply (value _ _).bind
    intro digits t _ moved
    refine .orFault_bind ?_
    intro number _
    apply (expect "_").bind
    intro _ v _ moved'
    exact .pure (moved.trans moved')
  apply (expect "T").bind
  intro _ t₁ _ first
  apply (accept "L").bind
  intro deep t₂ _ second
  refine bind (Q := fun _ t => t₂.Moved t) (.ite (fun _ => ordinal t₂) fun _ => .pure (.refl _)) ?_
  intro level t₃ _ third
  apply (accept "_").bind
  intro none t₄ _ fourth
  refine bind (Q := fun _ t => t₄.Moved t) (.ite (fun _ => .pure (.refl _)) fun _ => ordinal t₄) ?_
  intro index t _ fifth
  refine .get_bind ?_
  -- only the cursor has moved, so what was empty at the start still is; each way to find a
  -- parameter needs something else to be there
  have fresh (h : s.Fresh) : t.Fresh :=
    fifth.fresh (fourth.1.fresh (third.fresh (second.1.fresh (first.fresh h))))
  refine .ite (fun ahead => ?_) fun _ => ?_
  · have notFresh : ¬s.Fresh := fun h => by
      rw [(fresh h).forwardAllowed] at ahead
      cases ahead
    refine bind (make trivial) ?_
    intro id u _ _
    refine bind (Q := fun _ _ => True) (modified ⟨fun _ => rfl, fun _ => rfl⟩ trivial) ?_
    exact fun _ _ _ _ => pure notFresh
  · split
    · rename_i found
      have notFresh : ¬s.Fresh := fun h => by
        rw [(fresh h).scopes] at found
        cases found
      exact weaken (make trivial) fun _ _ _ _ => notFresh
    · refine .ite (fun lambda => ?_) fun _ => .throw _
      have notFresh : ¬s.Fresh := fun h => by
        rw [(fresh h).lambdaLevel] at lambda
        cases lambda
      refine bind (Q := fun _ _ => True) ?_ fun _ u _ _ => ?_
      · exact .ite (fun _ => KeepsForm.setScopes _ t) fun _ => .pure trivial
      · exact (makeName ⟨by decide, by decide⟩).weaken fun _ _ _ _ => notFresh

theorem structuredBinding :
    Forms symbol regular Parse.structuredBinding s fun id t => t.work.tree.Holds .part id := by
  have names : KeepsForm symbol regular Parse.sourceName := fun _ => sourceName.keeps
  apply (advance 2).bind
  intro _ t _ _
  apply bind (KeepsForm.someNodes (.accept "E") names t)
  intro ids u _ _
  apply bind (KeepsForm.makeList ids u)
  intro _ _ _ _
  exact make_shape .part rfl trivial

theorem refQualifier : Forms symbol regular Parse.refQualifier s fun _ t => s.Moved t := by
  apply (accept "O").bind
  intro _ t _ first
  refine .ite (fun _ => .pure first.1) fun _ => ?_
  apply (accept "R").bind
  intro _ u _ second
  refine .ite (fun _ => ?_) fun _ => ?_
  · exact .pure (first.1.trans second.1)
  · exact .pure (first.1.trans second.1)

/-- A number that stands behind words and is closed by a mark. -/
theorem counted {shape : Text → Node} (part : ∀ text, (shape text).IsPart = true)
    (formed : ∀ text tree, text.Aside → (shape text).Formed symbol regular tree) :
    Forms symbol regular (do
      let count ← Parse.number false
      Parse.expect "_"
      Parse.make (shape count)) s fun id t => t.work.tree.Holds .part id := by
  apply (number false).bind
  intro count t _ read
  apply (expect "_").bind
  intro _ u _ _
  exact make_shape .part (part count) (formed count _ read.2.1)

/-- Nothing is listed at first, so what can be abbreviated then is a name of the library. -/
theorem substitution :
    Forms symbol regular Parse.substitution s fun id t => s.Fresh → t.work.tree.Holds .part id := by
  have unlisted (u : ParseState) (index : Nat) : Forms symbol regular (Parse.listed index) u
      fun _ _ => ¬u.Fresh := by
    refine .get_bind (.orFault fun id found fresh => ?_)
    rw [Substitutions.get?, fresh.entries] at found
    cases found
  apply (expect "S").bind
  intro _ t _ first
  refine .peek_bind (.ite (fun _ => ?_) fun _ => ?_)
  · refine .orFault_bind ?_
    intro short _
    apply (advance 1).bind
    intro _ u _ _
    refine bind (make_shape .part rfl trivial) ?_
    intro plain v _ part
    apply (abiTags part).bind
    intro tagged w _ part
    refine bind (Q := fun _ _ => True) ?_ fun _ x stays _ => .pure fun _ => part.stays stays
    exact .ite (fun _ => .pure trivial) fun _ => KeepsForm.enlist tagged w
  · apply (accept "_").bind
    intro _ u _ second
    refine .ite (fun _ => ?_) fun _ => ?_
    · exact (unlisted u 0).weaken fun _ _ _ stale fresh =>
        absurd (second.1.fresh (first.fresh fresh)) stale
    · apply (value _ _).bind
      intro number v _ third
      refine .orFault_bind ?_
      intro index _
      apply (expect "_").bind
      intro _ w _ fourth
      exact (unlisted w index).weaken fun _ _ _ stale fresh =>
        absurd (fourth.fresh (third.fresh (second.1.fresh (first.fresh fresh)))) stale

end Forms

namespace KeepsForm

theorem templateParam : KeepsForm symbol regular Parse.templateParam :=
  fun _ => Forms.templateParam.keeps

theorem sourceName : KeepsForm symbol regular Parse.sourceName :=
  fun _ => Forms.sourceName.keeps

theorem refQualifier : KeepsForm symbol regular Parse.refQualifier :=
  fun _ => Forms.refQualifier.keeps

theorem resultless (tracked : Bool) : KeepsForm symbol regular (Parse.resultless tracked) :=
  learn _ _

theorem structorScope (scope : NodeId) : KeepsForm symbol regular (Parse.structorScope scope) := by
  apply (node scope).bind
  intro found
  split
  · exact make fun _ => trivial
  · exact pure scope

theorem destructorName (scope : NodeId) (tracked : Bool) :
    KeepsForm symbol regular (Parse.destructorName scope tracked) := by
  apply (advance 2).seq
  apply (resultless tracked).seq
  exact make fun _ => trivial

end KeepsForm

section Calls

variable (calls : FormsAll symbol regular call)
include calls

namespace Forms

/-- A name with its arguments is never spelled as nothing. -/
theorem instantiate (tracked : Bool) (name : NodeId) :
    Forms symbol regular (Parse.instantiate call tracked name) s fun id t =>
      t.work.tree.Holds .printed id := by
  apply (calls (.templateArgs tracked) s).bind
  intro args t _ listed
  apply (learn _ _).bind
  intro _ u stays _
  exact make_shape .printed rfl (listed.stays stays)

end Forms

namespace KeepsForm

theorem instantiate (tracked : Bool) (name : NodeId) :
    KeepsForm symbol regular (Parse.instantiate call tracked name) :=
  fun _ => (Forms.instantiate calls tracked name).keeps

theorem instantiateIfArgs (name : NodeId) :
    KeepsForm symbol regular (Parse.instantiateIfArgs call name) := by
  apply peek.bind
  intro letter
  exact ite (instantiate calls false name) (pure name)

theorem scopedArg : KeepsForm symbol regular (Parse.scopedArg call) := by
  apply get_bind
  intro s
  apply (setLevels _).seq
  refine bind (thenAlways ⟨fun _ => rfl, fun _ => rfl⟩ (of_all calls .templateArg)) ?_
  intro arg
  apply (node arg).bind
  intro found
  apply bind
  · split
    · exact make fun _ => trivial
    · exact pure arg
  intro entry
  apply (addArgument entry).seq
  exact pure arg

theorem constructorName (scope : NodeId) (tracked : Bool) :
    KeepsForm symbol regular (Parse.constructorName call scope tracked) := by
  apply (accept "I").bind
  intro held
  apply peek.bind
  intro letter
  apply (ensure unexpected).seq
  apply (advance 1).seq
  apply (resultless tracked).seq
  apply (ite (discard (of_all calls _)) (pure ())).seq
  exact make fun _ => trivial

theorem structorName (scope : NodeId) (tracked : Bool) :
    KeepsForm symbol regular (Parse.structorName call scope tracked) := by
  apply (accept "C").bind
  intro isConstructor
  apply ite (constructorName calls scope tracked)
  apply peekPair.bind
  intro letters
  exact ite (destructorName scope tracked) unexpected

theorem templateArg : KeepsForm symbol regular (Parse.templateArg call) := by
  apply peekPair.bind
  intro pair
  split
  · apply (advance 1).seq
    apply (of_all calls .expression).bind
    intro operand
    apply (expect "E").seq
    exact pure operand
  · apply (advance 1).seq
    apply (nodesUntil "E" (of_all calls .templateArg)).bind
    intro args
    apply (makeList args).bind
    intro list
    exact make fun _ => trivial
  · apply (advance 2).seq
    apply (of_all calls .encoding).bind
    intro encoding
    apply (expect "E").seq
    exact pure encoding
  · exact of_all calls .literal
  · exact of_all calls .type

end KeepsForm

namespace Forms

theorem templateArgs (tracked : Bool) :
    Forms symbol regular (Parse.templateArgs call tracked) s fun id t =>
      t.work.tree.Holds .args id := by
  apply (expect "I").bind
  intro _ t _ _
  refine bind (Q := fun _ _ => True) ?_ fun _ u _ _ => ?_
  · exact .ite (fun _ => KeepsForm.setScopes _ t) fun _ => .pure trivial
  · refine bind (KeepsForm.nodesUntil "E" ?_ u) fun args v _ _ => ?_
    · exact .ite (.scopedArg calls) (.of_all calls .templateArg)
    · apply bind (KeepsForm.makeList args v)
      intro _ _ _ _
      exact make_shape .args rfl trivial

theorem unnamedTypeName :
    Forms symbol regular (Parse.unnamedTypeName call) s fun id t =>
      t.work.tree.Holds .part id := by
  apply (accept "Ut").bind
  intro _ t _ _
  refine .ite (fun _ => ?_) fun _ => ?_
  · exact counted (fun _ => rfl) fun _ _ aside => aside
  · apply (accept "Ul").bind
    intro _ u _ _
    refine .ite (fun _ => .get_bind ?_) fun _ => unexpected
    refine bind (Q := fun _ _ => True) (modified ⟨fun _ => rfl, fun _ => rfl⟩ trivial) ?_
    intro _ v _ _
    refine bind (Q := fun _ _ => True) (thenAlways ⟨fun _ => rfl, fun _ => rfl⟩ ?_) fun params w _ _ => ?_
    · have params : KeepsForm symbol regular (Parse.unnamedTypeName.lambdaParams call) := by
        apply (KeepsForm.accept "vE").bind
        intro held
        apply (KeepsForm.ite (.pure #[]) (.someNodes (.accept "E") (.of_all calls .type))).bind
        exact .makeList
      exact params v
    · exact counted (fun _ => rfl) fun _ _ aside => aside

theorem conversionName (tracked : Bool) :
    Forms symbol regular (Parse.operatorName.conversionName call tracked) s fun id t =>
      t.work.tree.Holds .part id := by
  refine .get_bind (bind (Q := fun _ _ => True) (modified ⟨fun _ => rfl, fun _ => rfl⟩ trivial) ?_)
  intro _ t _ _
  refine bind (Q := fun _ _ => True) (thenAlways ⟨fun _ => rfl, fun _ => rfl⟩ ?_) fun type u _ _ => ?_
  · exact KeepsForm.of_all calls .type t
  · apply bind (KeepsForm.resultless tracked u)
    intro _ _ _ _
    exact make_shape .part rfl trivial

/-- The name of an operator is a part of a name. -/
theorem operatorName (tracked : Bool) :
    Forms symbol regular (Parse.operatorName call tracked) s fun id t =>
      t.work.tree.Holds .part id := by
  refine .peekPair_bind ?_
  dsimp only
  split
  · rename_i operator found
    apply (advance 2).bind
    intro _ t _ _
    refine .ite (fun _ => conversionName calls tracked) fun _ => ?_
    refine .orFault_bind ?_
    intro words named
    exact makeName ((Operator.plain found).2 words named)
  · apply (accept "li").bind
    intro _ t _ _
    refine .ite (fun _ => ?_) fun _ => .ite (fun _ => ?_) fun _ => ?_
    · apply sourceName.bind
      intro _ _ _ _
      exact make_shape .part rfl trivial
    · apply (advance 2).bind
      intro _ _ _ _
      apply sourceName.bind
      intro _ _ _ _
      exact make_shape .part rfl trivial
    · exact unexpected

theorem unqualifiedName (tracked : Bool) :
    Forms symbol regular (Parse.unqualifiedName call tracked) s fun id t =>
      t.work.tree.Holds .part id := by
  refine .peekPair_bind (bind (Q := fun id t => t.work.tree.Holds .part id) ?_ fun _ _ _ => abiTags)
  exact .ite (fun _ => unnamedTypeName calls) fun _ => .ite (fun _ => sourceName) fun _ =>
    .ite (fun _ => structuredBinding) fun _ => calls (.operatorName tracked) s

end Forms

end Calls
/-! ## Names inside others

A nested name is built part by part, each part inside the one before.
-/

/-- What was read of a name that begins in a state: nothing yet, or something that is not spelled
as nothing if the state was fresh. -/
def ParseState.Begun (before : ParseState) (scope : Option NodeId) (s : ParseState) : Prop :=
  before.Fresh → match scope with
    | none => s.Fresh
    | some id => s.work.tree.Holds .printed id

variable {before t : ParseState}
  {scope : Option NodeId}

namespace ParseState.Begun

theorem moved (h : before.Begun scope s) (moved : s.Moved t) : before.Begun scope t := by
  intro fresh
  have known := h fresh
  obtain ⟨_, _, rfl⟩ := moved
  cases scope with
  | none => exact ⟨known.entries, known.scopes, known.forwardAllowed, known.lambdaLevel⟩
  | some id => exact known

theorem part {id : NodeId} (part : before.Fresh → s.work.tree.Holds .part id) :
    before.Begun (some id) s :=
  fun fresh => (part fresh).printed

end ParseState.Begun

namespace Forms

/-- A part that stands for itself at the beginning, inside what was read before it. -/
theorem listedPart {part : NodeId} (tracked : Bool)
    (first : before.Fresh → scope = none → s.work.tree.Holds .part part) :
    Forms symbol regular (Parse.nestedPart.listedPart tracked scope part) s before.Begun := by
  apply (component scope part tracked).bind
  intro id t stays known
  apply bind (KeepsForm.enlist id t)
  intro _ u stays' _
  refine .pure (.part fun fresh => ?_)
  by_cases alone : scope = none
  · rw [known.1 alone]
    exact ((first fresh alone).stays stays).stays stays'
  · exact (known.2 alone).stays stays'

variable (calls : FormsAll symbol regular call)
include calls

/-- A nested name that has begun goes on with each part. -/
theorem nestedPart (tracked : Bool) (begun : before.Begun scope s) :
    Forms symbol regular (Parse.nestedPart call tracked scope) s before.Begun := by
  refine bind (Q := fun _ t => t = s) (.get_bind (.pure rfl)) ?_
  rintro ended _ - rfl
  refine .ensure_bind (.throw _) ?_
  intro _
  refine bind (Q := fun _ t => before.Begun scope t) ?_ fun _ t _ begun => ?_
  · apply (accept "L").bind
    intro _ t _ moved
    exact .pure (begun.moved moved.1)
  apply (accept "M").bind
  intro _ u _ moved
  have begun := begun.moved moved.1
  refine .ite (fun _ => .ensure_bind (.throw _) fun _ => .pure begun) fun _ => .peekPair_bind ?_
  have starts (fresh : before.Fresh) (none : scope = none) : u.Fresh := by
    have known := begun fresh
    rwa [none] at known
  split
  · apply templateParam.bind
    intro part v _ stale
    refine listedPart tracked ?_
    intro fresh none
    exact absurd (starts fresh none) stale
  · refine .orFault_bind ?_
    intro name _
    apply (instantiate calls tracked name).bind
    intro id v _ printed
    apply bind (KeepsForm.enlist id v)
    intro _ w stays _
    exact .pure fun _ => printed.stays stays
  · apply (calls .decltype u).bind
    intro part v _ known
    exact listedPart tracked fun _ _ => known
  · apply (calls .decltype u).bind
    intro part v _ known
    exact listedPart tracked fun _ _ => known
  · refine .ite (fun _ => ?_) fun _ => .ite (fun _ => ?_) fun _ => ?_
    · apply (calls .substitution u).bind
      intro listed v _ known
      apply (component scope listed tracked).bind
      intro id w stays placed
      refine bind (Q := fun _ _ => True) ?_ fun _ x stays' _ => .pure (.part fun fresh => ?_)
      · exact .ite (fun _ => .pure trivial) fun _ => KeepsForm.enlist id w
      · by_cases alone : scope = none
        · rw [placed.1 alone]
          exact ((known (starts fresh alone)).stays stays).stays stays'
        · exact (placed.2 alone).stays stays'
    · refine .orFault_bind ?_
      intro outside _
      apply bind (KeepsForm.structorScope outside u)
      intro inside v _ _
      apply bind (KeepsForm.structorName calls inside tracked v)
      intro structor w _ _
      apply (component (some inside) structor tracked).bind
      intro named x _ placed
      apply (abiTags (placed.2 nofun)).bind
      intro id y _ part
      apply bind (KeepsForm.enlist id y)
      intro _ _ stays _
      exact .pure (.part fun _ => part.stays stays)
    · apply (calls (.unqualifiedName tracked) u).bind
      intro part v _ known
      exact listedPart tracked fun _ _ => known

/-- A nested name that begins a symbol is never spelled as nothing. -/
theorem nestedParts (tracked : Bool) :
    Forms symbol regular (Parse.nestedParts call tracked) s fun id t =>
      s.Fresh → t.work.tree.Holds .printed id := by
  apply (expect "N").bind
  intro _ t _ first
  apply qualifiers.bind
  intro quals u _ second
  apply refQualifier.bind
  intro ref v _ third
  apply (learn _ _).bind
  intro _ w _ fourth
  apply (accept "St").bind
  intro _ x _ fifth
  have moved : s.Moved x := (((first.trans second).trans third).trans fourth).trans fifth.1
  refine bind (Q := s.Begun) ?_ fun start y _ begun => ?_
  · refine .ite (fun _ => ?_) fun _ => .pure moved.fresh
    apply bind (makeName ⟨by decide, by decide⟩)
    intro id _ _ part
    exact .pure (.part fun _ => part)
  · refine bind (Q := s.Begun) (.untilHolds (fun scope z begun => ?_) (fun scope z begun => ?_) begun)
      fun complete z _ begun => ?_
    · exact weaken (accept "E") fun _ _ _ moved => begun.moved moved.1
    · exact nestedPart calls tracked begun
    · exact .orFault fun id known => by
        rw [known] at begun
        exact begun

theorem nestedName (tracked : Bool) :
    Forms symbol regular (Parse.nestedName call tracked) s fun id t =>
      s.Fresh → t.work.tree.Holds .printed id := by
  apply (nestedParts calls tracked).bind
  intro _ t _ printed
  apply bind (KeepsForm.delist t)
  intro _ _ stays _
  exact .pure fun fresh => (printed fresh).stays stays

/-- A local name is never spelled as nothing. -/
theorem localName (tracked : Bool) :
    Forms symbol regular (Parse.localName call tracked) s fun id t =>
      t.work.tree.Holds .printed id := by
  apply (expect "Z").bind
  intro _ t _ _
  apply (calls .encoding t).bind
  intro encoding u _ _
  apply (expect "E").bind
  intro _ v _ _
  apply (accept "s").bind
  intro _ w _ _
  refine .ite (fun _ => ?_) fun _ => ?_
  · apply bind (KeepsForm.skipDiscriminator w)
    intro _ x _ _
    apply bind (makeName ⟨by decide, by decide⟩)
    intro _ _ _ _
    exact make_shape .printed rfl trivial
  · apply (accept "d").bind
    intro _ x _ _
    refine .ite (fun _ => ?_) fun _ => ?_
    · apply bind (KeepsForm.discard (.number true) x)
      intro _ y _ _
      apply (expect "_").bind
      intro _ z _ _
      apply (calls (.name tracked) z).bind
      intro _ _ _ _
      exact make_shape .printed rfl trivial
    · apply (calls (.name tracked) x).bind
      intro entity y _ _
      apply bind (KeepsForm.skipDiscriminator y)
      intro _ _ _ _
      exact make_shape .printed rfl trivial

theorem unscopedName (tracked : Bool) :
    Forms symbol regular (Parse.unscopedName call tracked) s fun id t =>
      t.work.tree.Holds .printed id := by
  apply (accept "St").bind
  intro _ t _ _
  refine .ite (fun _ => ?_) fun _ => ?_
  · apply bind (KeepsForm.discard (.accept "L") t)
    intro _ u _ _
    apply (calls (.unqualifiedName tracked) u).bind
    intro _ _ _ _
    exact make_shape .printed rfl trivial
  · apply bind (KeepsForm.discard (.accept "L") t)
    intro _ u _ _
    exact weaken (calls (.unqualifiedName tracked) u) fun _ _ _ part => part.printed

theorem name (tracked : Bool) :
    Forms symbol regular (Parse.name call tracked) s fun id t =>
      s.Fresh → t.work.tree.Holds .printed id := by
  refine .peekPair_bind
    (.ite (fun _ => calls (.nestedName tracked) s) fun _ => .ite (fun _ => ?_) fun _ => .ite
      (fun _ => ?_) fun _ => ?_)
  · exact weaken (calls (.localName tracked) s) fun _ _ _ printed _ => printed
  · apply (calls .substitution s).bind
    intro listed t _ _
    apply bind (KeepsForm.peek t)
    intro _ u _ _
    refine .ensure_bind unexpected ?_
    intro _
    exact weaken (instantiate calls tracked listed) fun _ _ _ printed _ => printed
  · apply (unscopedName calls tracked).bind
    intro name t _ printed
    refine .peek_bind (.ite (fun _ => ?_) fun _ => .pure fun _ => printed)
    apply bind (KeepsForm.enlist name t)
    intro _ u _ _
    exact weaken (instantiate calls tracked name) fun _ _ _ printed _ => printed

end Forms
end Unmangle
