import Unmangle.Proofs.Extension.Number

/-!
# Names with more behind them
-/
namespace Unmangle

/-- Where a rule may end if its last number reaches into the suffix. -/
def Rule.leaves : Rule → Rests
  | .encoding | .specialName => Underscored
  | _ => Stranded

theorem Rule.leaves_underscored {rule : Rule} {rest : List UInt8} (h : rule.leaves rest) :
    Underscored rest := by
  cases rule with
  | encoding => exact h
  | specialName => exact h
  | _ => exact Stranded.underscored h

namespace Parse

/-- A way to read the rules that reads nothing where nothing begins, and the same with a suffix
behind the bytes. -/
structure ReadsBefore (tail : List UInt8) (call : Calls) : Prop where
  fails : ∀ rule s, rule ≠ .symbol → Barred s.cursor.rest → Fails (call rule) s
  extends_never : ∀ rule, rule ≠ .symbol →
    Extends tail .never (call rule) (call rule) fun _ => rule.leaves

theorem ReadsBefore.rule {tail : List UInt8} {call : Calls} {A : Rests}
    (reads : ReadsBefore tail call) (bar : ∀ rest, A rest → Barred rest) (rule : Rule)
    (other : rule ≠ .symbol) : Extends tail A (call rule) (call rule) fun _ => rule.leaves :=
  (reads.extends_never rule other).of_never fun s h => reads.fails rule s other (bar _ h)

namespace Extends

variable {tail : List UInt8} (suffix : Suffix tail)
include suffix

theorem ordinal : Extends tail Barred Parse.ordinal Parse.ordinal fun _ => .never := by
  apply (decimal suffix).bind
  intro number
  apply (still (.orFault (Number.succ? number) .overflow)).bind
  intro index
  apply (expectBar fun _ => Rests.never.eats).seq
  exact pure fun _ => id

theorem templateParam {A : Rests} (bar : ∀ rest, A rest → Barred rest) :
    Extends tail A Parse.templateParam Parse.templateParam fun _ => .never := by
  apply (expect suffix (by decide) bar).seq
  apply (accepted suffix (by decide) fun _ => Rests.never.barred).bind
  intro deep
  apply Extends.bind (B := fun _ => .never)
  · exact ite (fun _ => (ordinal suffix).narrow fun _ => Rests.never.barred) fun _ => pure fun _ => id
  intro level
  apply (acceptBar fun _ => Rests.never.eats).bind
  intro first
  apply Extends.bind (B := fun _ => .never)
  · cases first with
    | true => exact pure fun _ => id
    | false =>
      exact (ordinal suffix).narrow fun _ => Barred.of_nil
  intro index
  apply known_bind fun _ => rfl
  intro state
  apply ite
  · intro _
    apply (make _).bind
    intro id
    exact modify_bind (fun _ => rfl) (fun _ => rfl) (pure fun _ h => h)
  intro _
  split
  · exact make _
  · apply ite
    · intro _
      apply Extends.bind (B := fun _ => .never)
      · exact ite (fun _ => still (.setScopes _)) fun _ => pure fun _ => id
      intro _
      exact makeName _
    · exact fun _ => throw _

variable {call : Calls} (reads : ReadsBefore tail call) {A : Rests}

omit suffix in
theorem learn (tracked : Bool) (change : NameFacts → NameFacts) :
    Extends tail A (Parse.learn tracked change) (Parse.learn tracked change) fun _ => A :=
  still (.learn tracked change)

include reads

omit suffix in
theorem scopedArg (bar : ∀ rest, A rest → Barred rest) :
    Extends tail A (Parse.scopedArg call) (Parse.scopedArg call) fun _ => Stranded := by
  apply known_bind fun _ => rfl
  intro state
  apply (still (.setLevels #[])).seq
  apply Extends.bind (B := fun _ => Stranded)
  · exact (reads.rule bar .templateArg nofun).thenAlways (fun _ => rfl) fun _ => rfl
  intro arg
  apply (still (.node arg)).bind
  intro node
  apply Extends.bind (B := fun _ => Stranded)
  · split
    · exact make _
    · exact pure fun _ => id
  intro entry
  apply (still (.addArgument entry)).seq
  exact pure fun _ => id

theorem templateArgs (tracked : Bool) : Extends tail .never (Parse.templateArgs call tracked)
    (Parse.templateArgs call tracked) fun _ => Stranded := by
  apply (expect suffix (by decide) fun _ => Rests.never.barred).seq
  apply Extends.bind (B := fun _ => .never)
  · exact ite (fun _ => still (.setScopes _)) fun _ => pure fun _ => id
  intro _
  apply Extends.bind (B := fun _ => .never)
  · apply (nodesUntil suffix (by decide) _).narrow fun _ => Rests.never.barred
    exact ite (fun _ => scopedArg reads fun _ => id) fun _ => reads.rule (fun _ => id) _ nofun
  intro args
  apply (makeList args).bind
  intro list
  exact (make _).always

omit suffix in
theorem instantiate (tracked : Bool) (name : NodeId) (bar : ∀ rest, A rest → Barred rest) :
    Extends tail A (Parse.instantiate call tracked name) (Parse.instantiate call tracked name)
      fun _ => Stranded := by
  apply (reads.rule bar (.templateArgs tracked) nofun).bind
  intro args
  apply (learn tracked _).seq
  exact make _

theorem instantiateIfArgs (name : NodeId) : Extends tail Stranded
    (Parse.instantiateIfArgs call name) (Parse.instantiateIfArgs call name) fun _ => Stranded := by
  apply peek_bind suffix ⟨rfl, rfl⟩
  intro char
  apply ite
  · exact fun _ => instantiate reads false name fun _ => Stranded.barred
  · exact fun _ => pure fun _ => id

theorem templateArg : Extends tail .never (Parse.templateArg call) (Parse.templateArg call)
    fun _ => Stranded := by
  apply peekPair_bind suffix
  · intro first
    constructor
    · dsimp only
      split <;> simp_all
    · dsimp only
      split <;> simp_all
  · intro s left
    exact reads.fails _ _ nofun (.of_nil left)
  · intro s some
    split
    · rename_i look
      apply ExtendsFrom.advance_one (Prod.mk.inj look).1 (by decide)
      apply (reads.rule (fun _ => Rests.never.barred) .expression nofun).bind
      intro operand
      apply (expect suffix (by decide) fun _ => Stranded.barred).seq
      exact pure fun _ h => h.elim
    · rename_i look
      apply ExtendsFrom.advance_one (Prod.mk.inj look).1 (by decide)
      apply Extends.bind (B := fun _ => .never)
      · apply (nodesUntil suffix (by decide) _).narrow fun _ => Rests.never.barred
        exact reads.rule (fun _ => id) _ nofun
      intro args
      apply (makeList args).bind
      intro list
      exact (make _).always
    · rename_i look
      apply ExtendsFrom.advance_two (Prod.mk.inj look).2 (by decide)
      apply (reads.rule (fun _ => Rests.never.barred) .encoding nofun).bind
      intro encoding
      apply (expect suffix (by decide) fun _ => Underscored.barred).seq
      exact pure fun _ h => h.elim
    · exact reads.extends_never .literal nofun s
    · exact reads.extends_never .type nofun s

theorem lambdaParams : Extends tail .never (Parse.unnamedTypeName.lambdaParams call)
    (Parse.unnamedTypeName.lambdaParams call) fun _ => .never := by
  apply (accepted suffix (by decide) fun _ => Rests.never.barred).bind
  intro none
  apply Extends.bind (B := fun _ => .never)
  · apply ite
    · exact fun _ => pure fun _ => id
    · intro _
      apply someNodes (accept suffix (by decide) fun _ => Stranded.barred)
      · exact fun _ h => nomatch h.1
      · exact reads.extends_never .type nofun
      · exact reads.rule (fun _ h => h.2.barred) .type nofun
  intro params
  exact makeList params

/-- The name of a type without one ends with an underscore. -/
theorem unnamedTypeName : Extends tail .never (Parse.unnamedTypeName call)
    (Parse.unnamedTypeName call) fun _ => .never := by
  apply accept_bind suffix (by decide) fun _ => Rests.never.barred
  · apply (number suffix false).bind
    intro count
    apply (expectBar fun _ => Rests.never.eats).seq
    exact make _
  apply accept_bind suffix (by decide) fun _ => Rests.never.barred
  · apply known_bind fun _ => rfl
    intro state
    refine modify_bind (fun _ => rfl) (fun _ => rfl) ?_
    apply Extends.bind (B := fun _ => .never)
    · exact (lambdaParams suffix reads).thenAlways (fun _ => rfl) fun _ => rfl
    intro params
    apply (number suffix false).bind
    intro count
    apply (expectBar fun _ => Rests.never.eats).seq
    exact make _
  · exact unexpected

omit suffix reads in
theorem component (scope : Option NodeId) (part : NodeId) (tracked : Bool) : Extends tail A
    (Parse.component scope part tracked) (Parse.component scope part tracked) fun _ => A := by
  apply Extends.bind (B := fun _ => A)
  · cases scope with
    | none => exact pure fun _ => id
    | some scope => exact make _
  intro node
  apply (learn tracked _).seq
  exact pure fun _ => id

omit suffix reads in
theorem structorScope (scope : NodeId) :
    Extends tail A (Parse.structorScope scope) (Parse.structorScope scope) fun _ => A := by
  apply (still (.node scope)).bind
  intro node
  split
  · exact make _
  · exact pure fun _ => id

theorem constructorName (scope : NodeId) (tracked : Bool) : Extends tail .never
    (Parse.constructorName call scope tracked) (Parse.constructorName call scope tracked)
      fun _ => Stranded := by
  apply (accepted suffix (by decide) fun _ => Rests.never.barred).bind
  intro inheriting s
  apply ExtendsFrom.peekAt_bind suffix (Nat.zero_le _) ⟨rfl, rfl⟩
  apply ExtendsFrom.ensure_bind fun _ => Fails.unexpected
  intro digit
  apply ExtendsFrom.advance_one rfl
  · intro nul
    simp [nul] at digit
  apply (learn tracked _).seq
  apply Extends.bind (B := fun _ => Stranded)
  · apply ite
    · exact fun _ => (reads.extends_never (.name tracked) nofun).discard
    · exact fun _ => pure fun _ h => h.elim
  intro _
  exact make _

theorem structorName (scope : NodeId) (tracked : Bool) : Extends tail .never
    (Parse.structorName call scope tracked) (Parse.structorName call scope tracked)
      fun _ => Stranded := by
  have destructor (s : ParseState) {second : Char} (look : s.cursor.peekAt 1 = second)
      (some : second ≠ '\x00') : ExtendsFrom tail s False (destructorName scope tracked)
        (destructorName scope tracked) fun _ => Stranded := by
    apply ExtendsFrom.advance_two look some
    apply (learn tracked _).seq
    exact (make _).always
  apply accept_bind suffix (by decide) fun _ => Rests.never.barred
  · exact constructorName suffix reads scope tracked
  · apply peekPair_bind suffix
    · intro first
      constructor
      · simp [isDestructorKind]
      · simp [isDestructorKind]
    · exact fun _ _ => Fails.unexpected
    · intro s some
      apply ExtendsFrom.ite
      · intro known
        obtain ⟨-, kind⟩ : s.cursor.peekAt 0 = 'D' ∧ isDestructorKind (s.cursor.peekAt 1) = true := by
          simpa using known
        refine destructor s rfl ?_
        intro nul
        rw [nul] at kind
        cases kind
      · intro other
        exact .of_fails Fails.unexpected

omit reads in
/-- A substitution ends with its own last byte. -/
theorem substitution : Extends tail .never Parse.substitution Parse.substitution
    fun _ => .never := by
  apply (expect suffix (by decide) fun _ => Rests.never.barred).bind
  intro _ s
  apply ExtendsFrom.peekAt_bind suffix (Nat.zero_le _) ⟨rfl, rfl⟩
  apply ExtendsFrom.ite
  · intro lower
    apply ExtendsFrom.orFault_bind
    intro short found
    apply ExtendsFrom.advance_one rfl
    · intro nul
      simp [nul] at lower
    apply (make _).bind
    intro plain
    apply (abiTags suffix (fun _ => Rests.never.barred) plain).bind
    intro tagged
    apply Extends.bind (B := fun _ => .never)
    · exact ite (fun _ => pure fun _ => id) fun _ => enlist tagged
    intro _
    exact pure fun _ => id
  · intro _
    refine acceptBar_bind (fun _ => Rests.never.eats) (listed 0) ?_ s
    apply ((seqId suffix).narrow fun _ => Barred.of_nil).bind
    intro number
    apply (still (.orFault (Number.succ? number) .overflow)).bind
    intro index
    apply (expectBar fun _ => Rests.never.eats).seq
    exact listed index

omit suffix reads in
theorem listedPart (scope : Option NodeId) (tracked : Bool) (part : NodeId) : Extends tail A
    (Parse.nestedPart.listedPart tracked scope part)
    (Parse.nestedPart.listedPart tracked scope part) fun _ => A := by
  apply (component scope part tracked).bind
  intro node
  apply (enlist node).seq
  exact pure fun _ => id

omit suffix in
theorem nestedPart_fails (tracked : Bool) (scope : Option NodeId) {s : ParseState}
    (h : Barred s.cursor.rest) : Fails (Parse.nestedPart call tracked scope) s := by
  have part : Fails (call (.unqualifiedName tracked)) s := reads.fails _ _ nofun h
  apply Fails.after (show atEnd.run s = .ok s.cursor.atEnd s from rfl)
  apply Fails.guarded
  apply Fails.after (run_bind_ok _ (Fails.run_accept h rfl (by decide)))
  apply Fails.run_accept_bind h rfl (by decide)
  apply Fails.peekPair_bind h (fun _ => Fails.bind part)
  intro _
  exact Fails.bind part

theorem nestedPart (tracked : Bool) (scope : Option NodeId) : Extends tail .never
    (Parse.nestedPart call tracked scope) (Parse.nestedPart call tracked scope)
      fun _ => Stranded := by
  have listed {A : Rests} (part : NodeId) : Extends tail A
      (Parse.nestedPart.listedPart tracked scope part)
      (Parse.nestedPart.listedPart tracked scope part) fun _ => A :=
    listedPart scope tracked part
  apply more_bind
  apply (accepted suffix (by decide) fun _ => Rests.never.barred).discard.seq
  apply accept_bind suffix (by decide) fun _ => Rests.never.barred
  · apply ensure_bind fun _ => Fails.throw _
    exact pure fun _ h => h.elim
  apply peekPair_bind suffix
  · intro first
    constructor
    · dsimp only
      split <;> simp_all
      obtain ⟨rfl, rfl⟩ := ‹_ ∧ _›
      simp
    · dsimp only
      split <;> simp_all
      obtain ⟨rfl, rfl⟩ := ‹_ ∧ _›
      simp
  · intro s left
    exact Fails.bind (reads.fails _ _ nofun (.of_nil left))
  · intro s some
    split
    · apply from_never
      apply (templateParam suffix fun _ => Rests.never.barred).bind
      intro param
      exact (listed param).always
    · apply ExtendsFrom.orFault_bind
      intro name _
      apply from_never
      apply (instantiate reads tracked name fun _ => Rests.never.barred).bind
      intro node
      apply (enlist node).seq
      exact pure fun _ => id
    iterate 2
      · apply from_never
        apply (reads.extends_never .decltype nofun).bind
        intro type
        exact listed type
    · apply from_never
      apply ite
      · intro _
        apply (reads.extends_never .substitution nofun).bind
        intro substituted
        apply (component scope substituted tracked).bind
        intro node
        apply Extends.bind (B := fun _ => Stranded)
        · exact ite (fun _ => pure fun _ => id) fun _ => enlist node
        · exact fun _ => pure fun _ => id
      intro _
      apply ite
      · intro _
        apply (still (.orFault scope _)).bind
        intro name
        apply (structorScope name).bind
        intro inside
        apply (structorName suffix reads inside tracked).bind
        intro structor
        apply (component _ structor tracked).bind
        intro whole
        apply (abiTags suffix (fun _ => Stranded.barred) whole).bind
        intro node
        apply (enlist node).seq
        exact pure fun _ => id
      · intro _
        apply (reads.extends_never (.unqualifiedName tracked) nofun).bind
        intro part
        exact listed part

/-- A nested name ends with its `E`. -/
theorem nestedParts (tracked : Bool) : Extends tail .never (Parse.nestedParts call tracked)
    (Parse.nestedParts call tracked) fun _ => .never := by
  apply (expect suffix (by decide) fun _ => Rests.never.barred).seq
  apply (qualifiers suffix fun _ => Rests.never.barred).bind
  intro quals
  apply (refQualifier suffix fun _ => Rests.never.barred).bind
  intro ref
  apply (learn tracked _).seq
  apply (accepted suffix (by decide) fun _ => Rests.never.barred).bind
  intro standard
  apply Extends.bind (B := fun _ => .never)
  · exact ite (fun _ => (makeName _).map) fun _ => pure fun _ => id
  intro start
  apply Extends.bind (B := fun _ => .never)
  -- a part may leave the bytes stranded, but then neither a part nor an end comes next
  · apply (untilHolds (accept suffix (by decide) fun _ => Stranded.barred) _ _ start).narrow
      fun _ h => h.elim
    · exact fun _ _ h => nomatch h.1
    · intro scope
      apply (nestedPart suffix reads tracked scope).of_never
      intro s h
      exact nestedPart_fails reads tracked scope h.2.barred
  intro complete
  exact still (.orFault complete _)

theorem nestedName (tracked : Bool) : Extends tail .never (Parse.nestedName call tracked)
    (Parse.nestedName call tracked) fun _ => Stranded := by
  apply (nestedParts suffix reads tracked).bind
  intro complete
  apply delist.seq
  exact pure fun _ h => h.elim

theorem localName (tracked : Bool) : Extends tail .never (Parse.localName call tracked)
    (Parse.localName call tracked) fun _ => Stranded := by
  apply (expect suffix (by decide) fun _ => Rests.never.barred).seq
  apply (reads.extends_never .encoding nofun).bind
  intro encoding
  apply (expect suffix (by decide) fun _ => Underscored.barred).seq
  apply accept_bind suffix (by decide) fun _ => Rests.never.barred
  · apply ((Extends.skipDiscriminator suffix).narrow fun _ h => h.elim).seq
    apply (makeName _).bind
    intro string
    exact make _
  apply accept_bind suffix (by decide) fun _ => Rests.never.barred
  · apply (number suffix true).discard.seq
    apply (expectBar fun _ => Rests.never.eats).seq
    apply (reads.extends_never (.name tracked) nofun).bind
    intro entity
    exact make _
  apply (reads.extends_never (.name tracked) nofun).bind
  intro entity
  -- the only number that looks for an underscore it does not need
  apply (Extends.skipDiscriminator suffix).seq
  exact make _

omit suffix in
/-- The type of a conversion. -/
theorem conversionName (tracked : Bool) : Extends tail .never
    (Parse.operatorName.conversionName call tracked)
    (Parse.operatorName.conversionName call tracked) fun _ => Stranded := by
  apply known_bind fun _ => rfl
  intro before
  refine modify_bind (fun _ => rfl) (fun _ => rfl) ?_
  apply Extends.bind (B := fun _ => Stranded)
  · exact (reads.extends_never .type nofun).thenAlways (fun _ => rfl) fun _ => rfl
  intro type
  apply (learn tracked _).seq
  exact make _

theorem operatorName (tracked : Bool) : Extends tail .never (Parse.operatorName call tracked)
    (Parse.operatorName call tracked) fun _ => Stranded := by
  apply peekPair_bind suffix
  · intro first
    obtain ⟨nul, dot, bar⟩ := Operator.find?_blind first
    constructor
    · dsimp only
      rw [nul, dot]
      rfl
    · dsimp only
      rw [nul, bar]
      rfl
  · intro s left
    exact Fails.run_accept_bind (.of_nil left) rfl (by decide) Fails.unexpected
  · intro s some
    dsimp only
    split
    · rename_i operator found
      apply ExtendsFrom.advance_two rfl (Operator.second_of_find? found)
      apply ite
      · exact fun _ => conversionName reads tracked
      · intro _
        apply (still (.orFault operator.name _)).bind
        intro words
        exact (makeName words).always
    · apply ExtendsFrom.accept_bind suffix (by decide)
      · apply ((sourceName suffix).narrow fun _ => Rests.never.barred).bind
        intro name
        exact (make _).always
      · refine ExtendsFrom.ite nofun ?_
        intro _
        apply ExtendsFrom.ite
        · intro vendor
          apply ExtendsFrom.advance_two rfl
          · intro nul
            simp [nul] at vendor
          apply ((sourceName suffix).narrow fun _ => Rests.never.barred).bind
          intro name
          exact (make _).always
        · exact fun _ => .of_fails Fails.unexpected

omit reads in
theorem structuredBinding {s : ParseState} {second : Char} (look : s.cursor.peekAt 1 = second)
    (some : second ≠ '\x00') : ExtendsFrom tail s False Parse.structuredBinding
      Parse.structuredBinding fun _ => .never := by
  apply ExtendsFrom.advance_two look some
  apply Extends.bind (B := fun _ => .never)
  · have item (A : Rests) (bar : ∀ rest, A rest → Barred rest) : Extends tail A
        Parse.sourceName Parse.sourceName fun _ => .never :=
      (Extends.sourceName suffix).narrow bar
    apply someNodes (accept suffix (by decide) fun _ => Rests.never.barred)
    · exact fun _ h => nomatch h.1
    · exact item _ fun _ => Rests.never.barred
    · exact item _ fun _ h => h.2.barred
  intro names
  apply (makeList names).bind
  intro list
  exact make _

theorem unqualifiedName (tracked : Bool) : Extends tail .never
    (Parse.unqualifiedName call tracked) (Parse.unqualifiedName call tracked)
      fun _ => Stranded := by
  apply peekPair_bind suffix
  · exact fun _ => ⟨rfl, rfl⟩
  · exact fun s left => Fails.bind (reads.fails _ _ nofun (.of_nil left))
  · intro s some
    apply ExtendsFrom.bind (B := fun _ => Stranded)
    · apply ExtendsFrom.ite
      · exact fun _ => (unnamedTypeName suffix reads).always s
      intro _
      apply ExtendsFrom.ite
      · intro _
        exact ((sourceName suffix).narrow fun _ => Rests.never.barred).always s
      intro _
      apply ExtendsFrom.ite
      · intro binding
        apply (structuredBinding suffix rfl _).weaken id fun _ _ h => h.elim
        intro nul
        simp [nul] at binding
      · exact fun _ => reads.extends_never (.operatorName tracked) nofun s
    · intro name t _
      exact abiTags suffix (fun _ => Stranded.barred) name t

theorem unscopedName (tracked : Bool) : Extends tail .never
    (Parse.unscopedName call tracked) (Parse.unscopedName call tracked) fun _ => Stranded := by
  apply accept_bind suffix (by decide) fun _ => Rests.never.barred
  · apply (accepted suffix (by decide) fun _ => Rests.never.barred).discard.seq
    apply (reads.extends_never (.unqualifiedName tracked) nofun).bind
    intro part
    exact make _
  · apply (accepted suffix (by decide) fun _ => Rests.never.barred).discard.seq
    exact reads.extends_never (.unqualifiedName tracked) nofun

theorem name (tracked : Bool) : Extends tail .never (Parse.name call tracked)
    (Parse.name call tracked) fun _ => Stranded := by
  apply peekPair_bind suffix
  · exact fun _ => ⟨rfl, rfl⟩
  · intro s left
    apply Fails.bind
    apply Fails.run_accept_bind (.of_nil left) rfl (by decide)
    apply Fails.after (run_bind_ok _ (Fails.run_accept (.of_nil left) rfl (by decide)))
    exact reads.fails _ _ nofun (.of_nil left)
  · intro s some
    apply from_never
    apply ite
    · exact fun _ => reads.extends_never (.nestedName tracked) nofun
    intro _
    apply ite
    · exact fun _ => reads.extends_never (.localName tracked) nofun
    intro _
    apply ite
    · intro _
      apply (reads.extends_never .substitution nofun).bind
      intro listed
      apply peek_bind suffix ⟨rfl, rfl⟩
      intro char
      apply ensure_bind fun _ => Fails.unexpected
      exact instantiate reads tracked listed fun _ => Stranded.barred
    · intro _
      apply (unscopedName suffix reads tracked).bind
      intro name
      apply peek_bind suffix ⟨rfl, rfl⟩
      intro char
      apply ite
      · intro _
        apply (enlist name).seq
        exact instantiate reads tracked name fun _ => Stranded.barred
      · exact fun _ => pure fun _ => id

end Extends
end Parse
end Unmangle
