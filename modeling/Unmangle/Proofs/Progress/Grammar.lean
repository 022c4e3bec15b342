import Unmangle.Grammar.Parse
import Unmangle.Proofs.Course.Encoding
import Unmangle.Proofs.Course.Expression
import Unmangle.Proofs.Course.Literal
import Unmangle.Proofs.Progress.Basic

/-!
# Every production goes on

Each production reads something if it succeeds. How many calls it may stack up before that is its
rank, which is less than that of every production that calls it in the first place.
-/
namespace Unmangle

/-- The most calls from a rule down of which none reads a byte before the next. -/
def Rule.rank : Rule → Nat
  | .unqualifiedName _ | .baseUnresolvedName | .unresolvedType => 2
  | .name _ | .unresolvedName _ => 3
  | .encoding | .namedType | .expression => 4
  | .type | .bracedExpression => 5
  | .symbol | .templateArg | .qualifiedType => 6
  | _ => 1

/-- What a rule asks for where the parse stands. A qualified type first reads a qualifier that is
there, and without one it is any type. -/
def Rule.need (rule : Rule) (cursor : Cursor) : Nat :=
  if rule = .qualifiedType ∧ cursor.peekAt 0 ∈ ['U', 'r', 'V', 'K'] then 1 else rule.rank

theorem Rule.need_le (rule : Rule) (cursor : Cursor) : rule.need cursor ≤ rule.rank := by
  unfold Rule.need
  split
  · rename_i h
    rw [h.1]
    decide
  · exact Nat.le_refl _

theorem Rule.rank_le (rule : Rule) : rule.rank ≤ 6 := by
  cases rule <;> decide +revert

theorem Rule.rank_pos (rule : Rule) : 0 < rule.rank := by
  cases rule <;> decide +revert

theorem Rule.need_pos (rule : Rule) (cursor : Cursor) : 0 < rule.need cursor := by
  unfold Rule.need
  split
  · decide
  · exact rule.rank_pos

/-- The letter that was looked at comes next. -/
theorem Cursor.strip?_peekAt {cursor : Cursor} (letter : Letter (cursor.peekAt 0)) :
    cursor.strip? [cursor.peekAt 0] ≠ none := by
  obtain ⟨offset, _ | ⟨byte, rest⟩⟩ := cursor
  · exact absurd letter.1 (Nat.lt_irrefl 0)
  · have value : byte.toNat = (Char.ofNat byte.toNat).toNat := by
      rw [Char.ofNat, dif_pos (.inl (Nat.lt_trans byte.toNat_lt (by decide)))]
      rfl
    show (if byte.toNat = (Char.ofNat byte.toNat).toNat then strip? _ [] else none) ≠ none
    rw [if_pos value]
    exact nofun

namespace Parse

variable {budget : Budget} {need : Nat} {reads : Bool} {call : Calls} {s : ParseState}

/-- Every rule goes on, and asks for no more than what it needs. -/
def Ranked (budget : Budget) (call : Calls) : Prop :=
  ∀ rule s, s.level = budget.level → GoesFrom budget (rule.need s.cursor) true (call rule) s

/-- What is read where the production itself begins. -/
theorem Ranked.first (calls : Ranked budget call) {rule : Rule} (within : rule.rank.ble need = true) :
    Goes budget need reads (call rule) :=
  fun s level => (calls rule s level).weaken
    (Nat.le_trans (rule.need_le _) (Nat.le_of_ble_eq_true within)) fun _ => rfl

/-- Behind a byte that was read there are levels enough for any rule. -/
theorem Ranked.later (calls : Ranked budget call) (rule : Rule) : Goes budget 6 reads (call rule) :=
  fun s level => (calls rule s level).weaken (Nat.le_trans (rule.need_le _) rule.rank_le) fun _ => rfl

theorem Ranked.qualified (calls : Ranked budget call)
    (look : s.cursor.peekAt 0 ∈ ['U', 'r', 'V', 'K']) (level : s.level = budget.level) :
    GoesFrom budget (need + 1) true (call .qualifiedType) s := by
  refine (calls .qualifiedType s level).weaken ?_ id
  rw [Rule.need, if_pos ⟨rfl, look⟩]
  exact Nat.le_add_left _ _

namespace Goes

/-! ## Template arguments and parameters -/

theorem ordinal : Goes budget need reads Parse.ordinal := by
  apply decimal.andThen
  intro value
  apply (orFault (by nofun)).bind
  intro number
  apply (expect (by decide)).seq
  exact pure number

theorem templateParam : Goes budget need reads Parse.templateParam := by
  apply (expect (by decide)).andThen
  intro _
  apply (accept "L").bind
  intro held
  apply (ite ordinal (pure 0)).bind
  intro level
  apply (accept "_").bind
  intro held
  apply (ite (pure 0) ordinal).bind
  intro index
  apply get.bind
  intro s
  apply ite
  · apply (make _).bind
    intro id
    refine bind (modified (fun _ => rfl) fun _ => rfl) ?_
    intro _
    exact pure id
  · split
    · exact make _
    · refine ite ?_ (throw nofun)
      apply (ite (setScopes _) (pure ())).seq
      exact makeName "auto"

/-! ## Names -/

theorem sourceName : Goes budget need reads Parse.sourceName := by
  apply identifierFrom.andThen
  intro name
  exact ite (makeName _) (make _)

theorem abiTag (base : NodeId) : Goes budget need reads (do
    Parse.expect "B"
    Parse.make (.abiTagged base (← Parse.identifier))) := by
  apply (expect (by decide)).andThen
  intro _
  apply identifier.bind
  intro name
  exact make _

theorem untagged : Goes budget need false (do return !(← Parse.lookingAt "B")) := by
  apply (lookingAt "B").bind
  intro ahead
  exact pure _

theorem abiTags (name : NodeId) : Goes budget need false (Parse.abiTags name) :=
  untilHolds untagged abiTag name

theorem component (scope : Option NodeId) (part : NodeId) (tracked : Bool) :
    Goes budget need false (Parse.component scope part tracked) := by
  apply bind
  · cases scope with
    | some scope => exact make _
    | none => exact pure part
  intro node
  apply (learn _ _).seq
  exact pure node

theorem resultless (tracked : Bool) : Goes budget need false (Parse.resultless tracked) :=
  learn _ _

theorem structorScope (scope : NodeId) : Goes budget need false (Parse.structorScope scope) := by
  apply (node scope).bind
  intro found
  split
  · exact make _
  · exact pure scope

theorem listedPart (scope : Option NodeId) (part : NodeId) (tracked : Bool) :
    Goes budget need false (Parse.nestedPart.listedPart tracked scope part) := by
  apply (component scope part tracked).bind
  intro node
  apply (enlist node).seq
  exact pure (some node)

theorem refQualifier : Goes budget need false Parse.refQualifier := by
  apply (accept "O").bind
  intro held
  apply ite (pure _)
  apply (accept "R").bind
  intro held
  exact ite (pure _) (pure none)

theorem substitution : Goes budget need reads Parse.substitution := by
  apply (expect (by decide)).andThen
  intro _
  apply peek.bind
  intro letter
  apply ite
  · apply (orFault (by nofun)).bind
    intro short
    apply (advance 1).seq
    apply (make _).bind
    intro plain
    apply (abiTags plain).bind
    intro tagged
    apply (ite (pure ()) (enlist tagged)).seq
    exact pure tagged
  · apply (accept "_").bind
    intro held
    refine ite (listed 0) ?_
    apply seqId.bind
    intro value
    apply (orFault (by nofun)).bind
    intro index
    apply (expect (by decide)).seq
    exact listed index

theorem destructorName (scope : NodeId) (tracked : Bool) (look : s.cursor.peekAt 0 = 'D')
    (level : s.level = budget.level) :
    GoesFrom budget need reads (Parse.destructorName scope tracked) s := by
  refine .advance_bind (look ▸ by decide) level ?_
  apply (resultless tracked).seq
  exact make _

theorem structuredBinding (look : s.cursor.peekAt 0 = 'D') (level : s.level = budget.level) :
    GoesFrom budget need reads Parse.structuredBinding s := by
  refine .advance_bind (look ▸ by decide) level ?_
  apply (someNodes (accept "E") sourceName).bind
  intro names
  apply (makeList names).bind
  intro list
  exact make _

section Calls

variable (calls : Ranked budget call)
include calls

theorem scopedArg : Goes budget 6 reads (Parse.scopedArg call) := by
  apply get.bind
  intro s
  apply (setLevels _).seq
  apply andThen
  · exact thenAlways (calls.later .templateArg) (fun _ => rfl) fun _ => rfl
  intro arg
  apply (node arg).bind
  intro found
  apply bind
  · split
    · exact make _
    · exact pure arg
  intro entry
  apply (addArgument entry).seq
  exact pure arg

theorem templateArgs (tracked : Bool) : Goes budget need reads (Parse.templateArgs call tracked) := by
  apply (expect (by decide)).andThen
  intro _
  apply (ite (setScopes _) (pure ())).seq
  apply (nodesUntil "E" (ite (scopedArg calls) (calls.later _))).bind
  intro args
  apply (makeList args).bind
  intro list
  exact make _

theorem templateArg : Goes budget 5 true (Parse.templateArg call) := by
  intro s level
  refine .peekPair_bind ?_
  intro first second look
  split
  · rename_i h
    cases h
    refine .advance_bind (look ▸ by decide) level ?_
    apply (calls.later _).bind
    intro operand
    apply (expect (by decide)).seq
    exact pure operand
  · rename_i h
    cases h
    refine .advance_bind (look ▸ by decide) level ?_
    apply (nodesUntil "E" (calls.later _)).bind
    intro args
    apply (makeList args).bind
    intro list
    exact make _
  · rename_i h
    cases h
    refine .advance_bind (look ▸ by decide) level ?_
    apply (calls.later _).bind
    intro encoding
    apply (expect (by decide)).seq
    exact pure encoding
  · exact calls.first rfl s level
  · exact calls.first rfl s level

theorem instantiate (tracked : Bool) (name : NodeId) :
    Goes budget 6 reads (Parse.instantiate call tracked name) := by
  apply (calls.later _).andThen
  intro id
  apply (learn _ _).seq
  exact make _

theorem instantiateIfArgs (name : NodeId) :
    Goes budget 6 false (Parse.instantiateIfArgs call name) := by
  apply peek.bind
  intro letter
  exact ite (instantiate calls false name) (pure name)

theorem unnamedTypeName : Goes budget need reads (Parse.unnamedTypeName call) := by
  refine accept_bind (by decide) ?_ ?_
  · apply (number false).bind
    intro digits
    apply (expect (by decide)).seq
    exact make _
  refine accept_bind (by decide) ?_ unexpected
  apply get.bind
  intro s
  refine bind (modified (fun _ => rfl) fun _ => rfl) ?_
  intro _
  apply bind
  · refine thenAlways ?_ (fun _ => rfl) fun _ => rfl
    apply (accept "vE").bind
    intro held
    apply bind
    · exact ite (pure #[]) (someNodes (accept "E") (calls.later _))
    exact makeList
  intro params
  apply (number false).bind
  intro digits
  apply (expect (by decide)).seq
  exact make _

theorem constructorName (scope : NodeId) (tracked : Bool) :
    Goes budget 6 false (Parse.constructorName call scope tracked) := by
  apply (accept "I").bind
  intro held
  apply peek.bind
  intro letter
  apply (ensure unexpected).seq
  apply (advance 1).seq
  apply (resultless tracked).seq
  apply (ite (discard (calls.later _)) (pure ())).seq
  exact make _

theorem structorName (scope : NodeId) (tracked : Bool) :
    Goes budget 6 reads (Parse.structorName call scope tracked) := by
  apply accept_bind (by decide) (constructorName calls scope tracked)
  intro s level
  apply GoesFrom.peekPair_bind
  intro first second look
  dsimp only
  split
  · rename_i destructor
    obtain ⟨rfl, -⟩ : first = 'D' ∧ isDestructorKind second = true := by simpa using destructor
    exact destructorName scope tracked look level
  · exact unexpected s level

theorem nestedPart (tracked : Bool) (scope : Option NodeId) :
    Goes budget 6 reads (Parse.nestedPart call tracked scope) := by
  apply atEnd.bind
  intro ended
  apply (ensure (throw (by nofun))).seq
  apply (discard (accept "L")).seq
  refine accept_bind (by decide) ?_ ?_
  · apply (ensure (throw (by nofun))).seq
    exact pure scope
  · apply peekPair.bind
    intro pair
    split
    · apply templateParam.andThen
      intro part
      exact listedPart scope part tracked
    · apply (orFault (by nofun)).bind
      intro name
      apply (instantiate calls tracked name).andThen
      intro node
      apply (enlist node).seq
      exact pure (some node)
    · apply (calls.later _).andThen
      intro part
      exact listedPart scope part tracked
    · apply (calls.later _).andThen
      intro part
      exact listedPart scope part tracked
    · refine ite ?_ (ite ?_ ?_)
      · apply (calls.later _).andThen
        intro listed
        apply (component scope listed tracked).bind
        intro node
        apply (ite (pure ()) (enlist node)).seq
        exact pure (some node)
      · apply (orFault (by nofun)).bind
        intro outside
        apply (structorScope outside).bind
        intro inside
        apply (structorName calls inside tracked).andThen
        intro structor
        apply (component (some inside) structor tracked).bind
        intro named
        apply (abiTags named).bind
        intro node
        apply (enlist node).seq
        exact pure (some node)
      · apply (calls.later _).andThen
        intro part
        exact listedPart scope part tracked

theorem nestedName (tracked : Bool) : Goes budget need reads (Parse.nestedName call tracked) := by
  have parts : Goes budget need true (Parse.nestedParts call tracked) := by
    apply (expect (by decide)).andThen
    intro _
    apply qualifiers.bind
    intro quals
    apply refQualifier.bind
    intro ref
    apply (learn _ _).seq
    apply (accept "St").bind
    intro held
    apply (ite (map some (makeName "std")) (pure none)).bind
    intro start
    apply (untilHolds (accept "E") (nestedPart calls tracked) start).bind
    intro complete
    exact orFault (by nofun)
  apply parts.andThen
  intro complete
  apply delist.seq
  exact pure complete

theorem localName (tracked : Bool) : Goes budget need reads (Parse.localName call tracked) := by
  apply (expect (by decide)).andThen
  intro _
  apply (calls.later _).bind
  intro encoding
  apply (expect (by decide)).seq
  apply (accept "s").bind
  intro held
  apply ite
  · apply skipDiscriminator.seq
    apply (makeName _).bind
    intro name
    exact make _
  · apply (accept "d").bind
    intro held
    apply ite
    · apply (discard (number true)).seq
      apply (expect (by decide)).seq
      apply (calls.later _).bind
      intro id
      exact make _
    · apply (calls.later _).bind
      intro entity
      apply skipDiscriminator.seq
      exact make _

theorem conversionName (tracked : Bool) :
    Goes budget 6 false (Parse.operatorName.conversionName call tracked) := by
  apply get.bind
  intro s
  refine bind (modified (fun _ => rfl) fun _ => rfl) ?_
  intro _
  apply bind
  · exact thenAlways (calls.later _) (fun _ => rfl) fun _ => rfl
  intro type
  apply (resultless tracked).seq
  exact make _

theorem operatorName (tracked : Bool) : Goes budget need reads (Parse.operatorName call tracked) := by
  intro s level
  refine .peekPair_bind ?_
  intro first second look
  dsimp only
  split
  · rename_i found
    refine .advance_bind (look ▸ (Operator.letters found).1) level ?_
    apply ite (conversionName calls tracked)
    apply (orFault (by nofun)).bind
    exact makeName
  · have literal : Goes budget 6 false (do
        Parse.make (.literalOperator (← Parse.sourceName))) := by
      apply sourceName.bind
      intro name
      exact make _
    refine .accept_bind (by decide) level literal ?_
    intro _
    show GoesFrom budget need reads (if (first == 'v' && second.isDigit) = true then _ else _) s
    split
    · rename_i numbered
      obtain rfl : first = 'v' := by simpa using (Bool.and_eq_true_iff.mp numbered).1
      refine .advance_bind (look ▸ by decide) level ?_
      apply sourceName.bind
      intro name
      exact make _
    · exact unexpected s level

theorem unqualifiedName (tracked : Bool) :
    Goes budget 1 reads (Parse.unqualifiedName call tracked) := by
  intro s level
  refine .peekPair_bind ?_
  intro first second look
  refine .andThen ?_ abiTags level
  split
  · exact unnamedTypeName calls s level
  · split
    · exact sourceName s level
    · split
      · rename_i binds
        obtain rfl : first = 'D' := by simpa using (Bool.and_eq_true_iff.mp binds).1
        exact structuredBinding look level
      · exact calls.first rfl s level

theorem unscopedName (tracked : Bool) : Goes budget 2 reads (Parse.unscopedName call tracked) := by
  refine accept_bind (by decide) ?_ ?_
  · apply (discard (accept "L")).seq
    apply (calls.later _).bind
    intro id
    exact make _
  · apply (discard (accept "L")).seq
    exact calls.first rfl

theorem name (tracked : Bool) : Goes budget 2 reads (Parse.name call tracked) := by
  apply peekPair.bind
  intro pair
  refine ite (calls.first rfl) (ite (calls.first rfl) (ite ?_ ?_))
  · apply (calls.first rfl).andThen
    intro listed
    apply peek.bind
    intro letter
    apply (ensure unexpected).seq
    exact instantiate calls tracked listed
  · apply (unscopedName calls tracked).andThen
    intro name
    apply peek.bind
    intro letter
    refine ite ?_ (pure name)
    apply (enlist name).seq
    exact instantiate calls tracked name

end Calls

/-! ## Types -/

theorem binaryFloat (look : s.cursor.peekAt 0 = 'D') (level : s.level = budget.level) :
    GoesFrom budget need reads Parse.binaryFloat s := by
  refine .advance_bind (look ▸ by decide) level ?_
  apply (number false).bind
  intro width
  apply (ensure unexpected).seq
  apply (expect (by decide)).seq
  exact make _

theorem listing {type : Parse NodeId} (goes : GoesFrom budget need true type s)
    (level : s.level = budget.level) : GoesFrom budget need reads (Parse.listing type) s := by
  refine goes.andThen ?_ level
  intro id
  apply (enlist id).seq
  exact pure id

theorem typeKeyword : Goes budget need false Parse.typeKeyword := by
  apply (accept "Ts").bind
  intro held
  apply ite (pure _)
  apply (accept "Tu").bind
  intro held
  apply ite (pure _)
  apply (accept "Te").bind
  intro held
  exact ite (pure _) (pure none)

theorem atParamsEnd : Goes budget need false Parse.atParamsEnd := by
  apply (lookingAt "E").bind
  intro ahead
  apply ite (pure true)
  apply (lookingAt "RE").bind
  intro ahead
  exact ite (pure true) (lookingAt "OE")

/-- A qualifier that comes first is read. -/
theorem qualifiers_of_peek (look : s.cursor.peekAt 0 ∈ ['r', 'V', 'K'])
    (level : s.level = budget.level) : GoesFrom budget need true Parse.qualifiers s := by
  refine .accept_bind (by decide) level ?_ fun noR => ?_
  · apply (accept "V").bind
    intro held
    apply (accept "K").bind
    intro held
    exact pure _
  refine .accept_bind (by decide) level ?_ fun noV => ?_
  · apply (accept "K").bind
    intro held
    exact pure _
  refine .accept_bind (by decide) level (pure _) ?_
  intro noK
  have letters : ∀ char ∈ ['r', 'V', 'K'], Letter char := by decide
  have missing : ∀ char ∈ ['r', 'V', 'K'], s.cursor.strip? [char] = none := by
    rintro char (_ | ⟨_, _ | ⟨_, _ | ⟨_, ⟨⟩⟩⟩⟩)
    · exact noR
    · exact noV
    · exact noK
  exact absurd (missing _ look) (Cursor.strip?_peekAt (letters _ look))

section Calls

variable (calls : Ranked budget call)
include calls

theorem parameterType : Goes budget need reads (Parse.parameterType call) := by
  apply templateParam.andThen
  intro param
  apply get.bind
  intro s
  apply peek.bind
  intro letter
  refine ite ?_ (pure param)
  apply (enlist param).seq
  exact instantiate calls false param

theorem substitutionType : Goes budget 4 reads (Parse.substitutionType call) := by
  apply (calls.first rfl).andThen
  intro listed
  apply get.bind
  intro s
  apply peek.bind
  intro letter
  refine ite ?_ (pure listed)
  exact fun t level => listing (instantiate calls false listed t level) level

theorem wrappedType (wrap : NodeId → Node) (look : Letter (s.cursor.peekAt 0))
    (level : s.level = budget.level) :
    GoesFrom budget need reads (Parse.wrappedType call wrap) s := by
  refine .advance_bind look level ?_
  apply (calls.later .type).bind
  intro type
  exact make _

theorem functionOrQualified (look : s.cursor.peekAt 0 ∈ ['U', 'r', 'V', 'K'])
    (level : s.level = budget.level) :
    GoesFrom budget 1 true (do
      if ← Parse.qualifiesFunction then call .functionType else call .qualifiedType) s := by
  obtain ⟨found, run⟩ : ∃ found, Parse.qualifiesFunction.run s = .ok found s := by
    rw [Parse.qualifiesFunction, run_bind_ok _ run_get]
    split
    split <;> exact ⟨_, rfl⟩
  refine .look run ?_
  split
  · exact calls .functionType s level
  · exact calls.qualified look level

theorem type : Goes budget 4 reads (Parse.type call) := by
  intro s level
  apply GoesFrom.peekPair_bind
  intro first second look
  dsimp only
  have begins := TypeKind.begins_ofLetters first second
  cases kind : TypeKind.ofLetters first second with rw [kind] at begins
  | builtin words =>
    have letter : Letter (s.cursor.peekAt 0) := look ▸ Builtin.letter_of_spelling? begins
    exact .advance_bind letter level (makeName words)
  | extended words =>
    obtain ⟨rfl, -⟩ := begins
    exact .advance_bind (look ▸ by decide) level (makeName words)
  | listed rule =>
    obtain ⟨rfl, rfl⟩ | known := begins
    · exact listing (calls.qualified (by rw [look]; decide) level) level
    · have low : ∀ rule ∈ TypeKind.rules, rule.rank.ble 4 = true := by decide
      exact listing (calls.first (low rule known) s level) level
  | qualified =>
    have looked : ∀ char ∈ ['r', 'V', 'K'], char ∈ ['U', 'r', 'V', 'K'] := by decide
    have functionOrQualified := functionOrQualified calls (look ▸ looked first begins) level
    exact listing (functionOrQualified.weaken (by decide) id) level
  | vendor =>
    obtain rfl := begins
    refine .advance_bind (look ▸ by decide) level ?_
    intro t level
    refine listing ?_ level
    exact identifier.andThen (fun _ => make _) t level
  | binaryFloat =>
    obtain ⟨rfl, -⟩ := begins
    exact listing (binaryFloat look level) level
  | expansion =>
    obtain ⟨rfl, -⟩ := begins
    refine .advance_bind (look ▸ by decide) level ?_
    intro t level
    refine listing ?_ level
    exact (calls.later .type).andThen (fun _ => make _) t level
  | parameter => exact listing (parameterType calls s level) level
  | pointer =>
    obtain rfl := begins
    exact listing (wrappedType calls _ (look ▸ by decide) level) level
  | reference reference =>
    have letters : ∀ char ∈ ['R', 'O'], Letter char := by decide
    exact listing (wrappedType calls _ (look ▸ letters first begins) level) level
  | trailing words =>
    have letters : ∀ char ∈ ['C', 'G'], Letter char := by decide
    exact listing (wrappedType calls _ (look ▸ letters first begins.1) level) level
  | substitution => exact substitutionType calls s level
  | unknown => exact unexpected s level

theorem qualifiedType (level : s.level = budget.level) :
    GoesFrom budget (Rule.need .qualifiedType s.cursor - 1) true (Parse.qualifiedType call) s := by
  refine .accept_bind (by decide) level ?_ fun noU => ?_
  · apply identifier.bind
    intro name
    apply (calls.later _).bind
    intro id
    exact make _
  show GoesFrom budget _ true (do
    let quals ← Parse.qualifiers
    let type ← call .type
    if quals.isEmpty then return type else Parse.make (.qualified type quals)) s
  by_cases look : s.cursor.peekAt 0 ∈ ['U', 'r', 'V', 'K']
  · have look : s.cursor.peekAt 0 ∈ ['r', 'V', 'K'] := by
      refine (List.mem_cons.mp look).resolve_left ?_
      intro isU
      have letter : Letter (s.cursor.peekAt 0) := by
        rw [isU]
        decide
      have noU : s.cursor.strip? ['U'] = none := noU
      rw [← isU] at noU
      exact Cursor.strip?_peekAt letter noU
    refine (qualifiers_of_peek look level).andThen (fun quals => ?_) level
    apply (calls.later _).bind
    intro type
    exact ite (pure type) (make _)
  · rw [Rule.need, if_neg fun both => look both.2]
    refine bind qualifiers ?_ s level
    intro quals
    apply (calls.first rfl).andThen
    intro type
    exact ite (pure type) (make _)

theorem exceptionSpec : Goes budget need false (Parse.exceptionSpec call) := by
  refine accept_bind (by decide) (map some (makeName _)) ?_
  refine accept_bind (by decide) ?_ ?_
  · apply (calls.later _).bind
    intro id
    apply (expect (by decide)).seq
    exact map some (make _)
  · refine accept_bind (by decide) ?_ (pure none)
    apply (nodesUntil "E" (calls.later _)).bind
    intro types
    apply (makeList types).bind
    intro list
    exact map some (make _)

theorem param (params : Array NodeId) : Goes budget 6 reads (do
    if ← Parse.accept "v" then return params
    return params.push (← call .type)) := by
  refine accept_bind (by decide) (pure params) ?_
  apply (calls.later .type).andThen
  intro type
  exact pure _

theorem functionParams : Goes budget 6 false (Parse.functionParams call) :=
  untilHolds atParamsEnd (param calls) #[]

theorem functionType : Goes budget need reads (Parse.functionType call) := by
  apply qualifiers.bind
  intro quals
  apply (exceptionSpec calls).bind
  intro exception
  apply (discard (accept "Dx")).seq
  apply (expect (by decide)).andThen
  intro _
  apply (discard (accept "Y")).seq
  apply (calls.later _).bind
  intro result
  apply (functionParams calls).bind
  intro params
  apply refQualifier.bind
  intro ref
  apply (expect (by decide)).seq
  apply (makeList params).bind
  intro list
  exact make _

theorem computedDimension : Goes budget 6 false (Parse.computedDimension call) := by
  apply (accept "_").bind
  intro held
  apply ite (pure none)
  apply (calls.later _).bind
  intro size
  apply (expect (by decide)).seq
  exact pure (some size)

theorem arrayDimension : Goes budget 6 false (Parse.arrayDimension call) := by
  apply peek.bind
  intro letter
  refine ite ?_ (computedDimension calls)
  apply (number false).bind
  intro digits
  apply (expect (by decide)).seq
  apply (make _).bind
  intro id
  exact pure _

theorem arrayType : Goes budget need reads (Parse.arrayType call) := by
  apply (expect (by decide)).andThen
  intro _
  apply (arrayDimension calls).bind
  intro dimension
  apply (calls.later _).bind
  intro id
  exact make _

theorem memberPointerType : Goes budget need reads (Parse.memberPointerType call) := by
  apply (expect (by decide)).andThen
  intro _
  apply (calls.later _).bind
  intro id
  apply (calls.later _).bind
  intro id
  exact make _

theorem namedType : Goes budget 3 reads (Parse.namedType call) := by
  apply typeKeyword.bind
  intro keyword
  apply (calls.first rfl).andThen
  intro name
  split
  · exact make _
  · exact pure name

theorem decltype : Goes budget need reads (Parse.decltype call) := by
  have inside : Goes budget 6 false (do
      let inner ← call .expression
      Parse.expect "E"
      Parse.make (.enclosing "decltype" inner)) := by
    apply (calls.later .expression).bind
    intro inner
    apply (expect (by decide)).seq
    exact make _
  refine accept_bind (by decide) ?_ ?_
  · apply (pure true).bind
    intro opened
    apply (ensure unexpected).seq
    exact inside
  refine accept_bind (by decide) ?_ ?_
  · apply (ensure unexpected).seq
    exact inside
  · apply unexpected.andThen
    intro _
    exact inside

theorem vectorType : Goes budget need reads (Parse.vectorType call) := by
  apply (expect (by decide)).andThen
  intro _
  apply peek.bind
  intro letter
  apply ite
  · apply (number false).bind
    intro digits
    apply (make _).bind
    intro id
    apply (expect (by decide)).seq
    apply (accept "p").bind
    intro held
    apply ite
    · exact make _
    · apply (calls.later _).bind
      intro id
      exact make _
  · apply (computedDimension calls).bind
    intro dimension
    apply (calls.later _).bind
    intro id
    exact make _

end Calls

/-! ## Expressions and literals -/

theorem functionParam : Goes budget need reads Parse.functionParam := by
  have numbered : Goes budget 6 false Parse.functionParam.numbered := by
    apply (discard qualifiers).seq
    apply (number false).bind
    intro digits
    apply (expect (by decide)).seq
    exact make _
  refine accept_bind (by decide) (makeName _) ?_
  refine accept_bind (by decide) numbered ?_
  refine accept_bind (by decide) ?_ unexpected
  apply (number false).bind
  intro digits
  apply (ensure unexpected).seq
  apply (expect (by decide)).seq
  exact numbered

theorem packSize : Goes budget need false Parse.packSize := by
  apply peek.bind
  intro letter
  split
  · apply templateParam.bind
    intro param
    exact make _
  · apply functionParam.bind
    intro param
    exact make _
  · exact unexpected

theorem literalNumber : Goes budget need false Parse.literalNumber := by
  apply (number true).bind
  intro value
  apply (ensure unexpected).seq
  apply (expect (by decide)).seq
  exact pure value

theorem floatLiteral (format : FloatFormat) : Goes budget need false (Parse.floatLiteral format) := by
  intro s level
  refine .look (a := s) rfl ?_
  refine .take_bind nofun ?_
  intro behind found
  cases (List.take format.digits s.cursor.rest).all isHexDigit with
  | false => exact .fails rfl (by nofun)
  | true =>
    refine .look (a := ()) rfl (.moved_bind found level ?_)
    apply (expect (by decide)).seq
    exact make _

section Calls

variable (calls : Ranked budget call)
include calls

theorem fold : Goes budget need reads (Parse.fold call) := by
  apply (expect (by decide)).andThen
  intro _
  apply peek.bind
  intro letter
  cases foldSide? letter with
  | none => exact unexpected
  | some side =>
    apply (advance 1).seq
    apply peekPair.bind
    intro letters
    dsimp only
    cases Operator.find? letters.1 letters.2 with
    | none => exact unexpected
    | some operator =>
      apply (ensure (throw (by nofun))).seq
      apply (advance 2).seq
      apply (calls.later .expression).bind
      intro first
      apply bind
      · exact ite (map some (calls.later .expression)) (pure none)
      intro second
      split
      · exact make _
      · exact make _

theorem initializers : Goes budget 6 false (Parse.initializers call) := by
  apply (accept "pi").bind
  intro held
  apply ite (nodesUntil "E" (calls.later _))
  apply (expect (by decide)).seq
  exact pure #[]

theorem new (isGlobal isArray : Bool) : Goes budget 6 false (Parse.new call isGlobal isArray) := by
  apply (nodesUntil "_" (calls.later _)).bind
  intro placement
  apply (calls.later _).bind
  intro type
  apply (initializers calls).bind
  intro inits
  apply (makeList placement).bind
  intro list
  apply (makeList inits).bind
  intro list
  exact make _

theorem conversionOperands : Goes budget 6 false (Parse.conversionOperands call) := by
  apply (accept "_").bind
  intro held
  apply ite (nodesUntil "E" (calls.later _))
  apply (calls.later _).bind
  intro id
  exact pure #[id]

theorem conversion : Goes budget 6 false (Parse.conversion call) := by
  apply get.bind
  intro s
  refine bind (modified (fun _ => rfl) fun _ => rfl) ?_
  intro _
  apply bind
  · exact thenAlways (calls.later _) (fun _ => rfl) fun _ => rfl
  intro type
  apply (conversionOperands calls).bind
  intro operands
  apply (makeList operands).bind
  intro list
  exact make _

theorem operation (operator : Operator) (isGlobal : Bool) :
    Goes budget 6 false (Parse.operation call operator isGlobal) := by
  unfold Parse.operation
  cases operator.form with
  | binary | subscript | member | namedCast =>
    apply (calls.later _).bind
    intro left
    apply (calls.later _).bind
    intro right
    exact make _
  | leading | delete | ofType | ofExpression =>
    apply (calls.later _).bind
    intro operand
    exact make _
  | trailing =>
    apply (accept "_").bind
    intro isLeading
    apply ite
    · apply (calls.later .expression).bind
      intro operand
      exact make _
    · apply (calls.later .expression).bind
      intro operand
      exact make _
  | new isArray => exact new calls isGlobal isArray
  | call =>
    apply (calls.later .expression).bind
    intro callee
    apply (nodesUntil "E" (calls.later .expression)).bind
    intro args
    apply (makeList args).bind
    intro list
    exact make _
  | cast => exact conversion calls
  | conditional =>
    apply (calls.later .expression).bind
    intro condition
    apply (calls.later .expression).bind
    intro yes
    apply (calls.later .expression).bind
    intro no
    exact make _

theorem bracedList : Goes budget 6 false (Parse.bracedList call) :=
  (nodesUntil "E" (calls.later _)).bind makeList

theorem behindWord (form : WordForm) : Goes budget 6 false (Parse.behindWord call form) := by
  cases form with
  | initList =>
    apply (bracedList calls).bind
    intro list
    exact make _
  | typedInitList =>
    apply (calls.later .type).bind
    intro type
    apply (bracedList calls).bind
    intro list
    exact make _
  | throw | noexcept | expansion =>
    apply (calls.later .expression).bind
    intro operand
    exact make _
  | rethrow => exact makeName _
  | packSize => exact packSize
  | elementCount =>
    apply (nodesUntil "E" (calls.later .templateArg)).bind
    intro args
    apply (makeList args).bind
    intro list
    apply (make _).bind
    intro pack
    exact make _

theorem wordExpression (isGlobal : Bool) :
    Goes budget 3 reads (Parse.wordExpression call isGlobal) := by
  intro s level
  apply GoesFrom.peekPair_bind
  intro first second look
  dsimp only
  cases announced : WordForm.ofLetters? first second with
  | none => exact calls.first rfl s level
  | some form =>
    have letter : Letter (s.cursor.peekAt 0) := look ▸ (WordForm.letters announced).1
    exact .advance_bind letter level (behindWord calls form)

theorem expression : Goes budget 3 reads (Parse.expression call) := by
  apply (accept "gs").bind
  intro isGlobal
  apply get.bind
  intro s
  apply (ensure (throw (by nofun))).seq
  intro s level
  refine .peekPair_bind ?_
  intro first second look
  dsimp only
  split
  · exact calls.first rfl s level
  · exact templateParam s level
  · refine bind (peekAt 2) ?_ s level
    intro third
    exact ite functionParam (fold calls)
  · split
    · rename_i found
      refine .advance_bind (look ▸ (Operator.letters found).1) level ?_
      exact operation calls _ isGlobal
    · exact wordExpression calls isGlobal s level

theorem initializer (form : InitializerForm) :
    Goes budget 6 false (Parse.initializer call form) := by
  cases form with
  | field =>
    apply sourceName.bind
    intro field
    apply (calls.later .bracedExpression).bind
    intro value
    exact make _
  | element =>
    apply (calls.later .expression).bind
    intro index
    apply (calls.later .bracedExpression).bind
    intro value
    exact make _
  | range =>
    apply (calls.later .expression).bind
    intro first
    apply (calls.later .expression).bind
    intro last
    apply (calls.later .bracedExpression).bind
    intro value
    exact make _

theorem bracedExpression : Goes budget 4 reads (Parse.bracedExpression call) := by
  intro s level
  apply GoesFrom.peekPair_bind
  intro first second look
  dsimp only
  cases announced : InitializerForm.ofLetters? first second with
  | none => exact calls.first rfl s level
  | some form =>
    have letter : Letter (s.cursor.peekAt 0) := look ▸ (InitializerForm.letters announced).1
    exact .advance_bind letter level (initializer calls form)

theorem simpleId : Goes budget need reads (Parse.simpleId call) := by
  apply sourceName.andThen
  intro name
  exact instantiateIfArgs calls name

theorem innerScope (scope : NodeId) : Goes budget need reads (do
    Parse.make (.qualifiedName scope (← Parse.simpleId call))) := by
  apply (simpleId calls).andThen
  intro name
  exact make _

theorem simpleIds (scope : NodeId) : Goes budget need false (Parse.simpleIds call scope) :=
  untilHolds (accept "E") (innerScope calls) scope

theorem namedScopes (isGlobal : Bool) : Goes budget need false (Parse.namedScopes call isGlobal) := by
  apply (simpleId calls).bind
  intro outermost
  apply (ite (make _) (pure outermost)).bind
  intro scope
  exact simpleIds calls scope

theorem typeScope : Goes budget 6 false (Parse.typeScope call) := by
  apply (calls.later _).bind
  intro type
  exact instantiateIfArgs calls type

theorem unresolvedName (isGlobal : Bool) :
    Goes budget 2 reads (Parse.unresolvedName call isGlobal) := by
  refine accept_bind (by decide) ?_ ?_
  · apply (typeScope calls).bind
    intro type
    apply (simpleIds calls type).bind
    intro name
    apply (calls.later _).bind
    intro id
    exact make _
  refine accept_bind (by decide) ?_ ?_
  · apply peek.bind
    intro letter
    apply (ite (namedScopes calls isGlobal) (typeScope calls)).bind
    intro scope
    apply (calls.later _).bind
    intro id
    exact make _
  · apply (calls.first rfl).andThen
    intro base
    exact ite (make _) (pure base)

theorem unresolvedType : Goes budget 1 reads (Parse.unresolvedType call) := by
  apply peek.bind
  intro letter
  split
  · apply templateParam.andThen
    intro param
    apply (enlist param).seq
    exact pure param
  · apply (calls.first rfl).andThen
    intro type
    apply (enlist type).seq
    exact pure type
  · exact calls.first rfl

theorem baseUnresolvedName : Goes budget 1 reads (Parse.baseUnresolvedName call) := by
  apply peek.bind
  intro letter
  apply ite (simpleId calls)
  refine accept_bind (by decide) ?_ ?_
  · apply peek.bind
    intro letter
    apply (ite (simpleId calls) (calls.later _)).bind
    intro id
    exact make _
  · apply (discard (accept "on")).seq
    apply (calls.first rfl).andThen
    intro name
    exact instantiateIfArgs calls name

theorem enumerator : Goes budget 6 false (Parse.enumerator call) := by
  apply (calls.later _).bind
  intro id
  apply literalNumber.bind
  intro value
  exact make _

theorem literal : Goes budget need reads (Parse.literal call) := by
  apply (expect (by decide)).andThen
  intro _
  apply peekPair.bind
  intro pair
  dsimp only
  split
  · apply (advance 1).seq
    apply literalNumber.bind
    intro value
    exact make _
  · split
    · apply (accept "b0E").bind
      intro held
      apply ite (make _)
      apply (accept "b1E").bind
      intro held
      exact ite (make _) unexpected
    · apply (expect (by decide)).seq
      apply (calls.later _).bind
      intro encoding
      apply (expect (by decide)).seq
      exact pure encoding
    · apply (calls.later _).bind
      intro id
      apply (expect (by decide)).seq
      exact make _
    · apply (accept "DnE").bind
      intro held
      apply ite (makeName _)
      apply (accept "Dn0E").bind
      intro held
      exact ite (makeName _) (enumerator calls)
    · exact throw (by nofun)
    · split
      · apply (advance 1).seq
        exact floatLiteral _
      · refine ite ?_ (enumerator calls)
        apply (unnamedTypeName calls).bind
        intro closure
        apply (expect (by decide)).seq
        exact make _

end Calls

/-! ## Encodings -/

theorem resolve (id : NodeId) : Goes budget need false (Parse.resolve id) := by
  apply (node id).bind
  intro found
  split
  · apply get.bind
    intro s
    apply (orFault (by nofun)).bind
    intro value
    exact patch _ _
  · exact throw (by nofun)

theorem forM_resolve (ids : List NodeId) : Goes budget need false (ids.forM Parse.resolve) := by
  induction ids with
  | nil => exact pure ()
  | cons id ids ih => exact (resolve id).seq ih

theorem resolveSince (mark : Nat) : Goes budget need false (Parse.resolveSince mark) := by
  apply get.bind
  intro s
  apply (forM_resolve _).seq
  exact modified (fun _ => rfl) fun _ => rfl

theorem skipOffset : Goes budget need false Parse.skipOffset := by
  apply (number true).bind
  intro digits
  exact ensure unexpected

theorem callOffset : Goes budget need false Parse.callOffset := by
  apply (accept "h").bind
  intro held
  apply ite
  · apply skipOffset.seq
    exact expect (by decide)
  · apply (accept "v").bind
    intro held
    refine ite ?_ unexpected
    apply skipOffset.seq
    apply (expect (by decide)).seq
    apply skipOffset.seq
    exact expect (by decide)

theorem finish (root : NodeId) : Goes budget need false (Parse.finish root) := by
  apply atEnd.bind
  intro ended
  apply (ensure (throw (by nofun))).seq
  apply get.bind
  intro s
  apply (ensure (throw (by nofun))).seq
  exact pure root

section Calls

variable (calls : Ranked budget call)
include calls

theorem plainEncoding : Goes budget 3 reads (Parse.plainEncoding call) := by
  apply get.bind
  intro before
  apply (calls.first rfl).andThen
  intro name
  apply (resolveSince _).seq
  apply atEncodingEnd.bind
  intro ended
  refine ite (pure name) ?_
  apply get.bind
  intro after
  apply (ite (map some (calls.later _)) (pure none)).bind
  intro result
  apply (accept "v").bind
  intro held
  apply bind
  · exact ite (pure #[]) (someNodes atEncodingEnd (calls.later _))
  intro params
  apply (makeList params).bind
  intro list
  exact make _

theorem encoding : Goes budget 3 reads (Parse.encoding call) := by
  apply get.bind
  intro before
  refine bind (modified (fun _ => rfl) fun _ => rfl) ?_
  intro _
  refine thenAlways ?_ (fun _ => rfl) fun _ => rfl
  apply peek.bind
  intro letter
  split
  · exact calls.first rfl
  · exact calls.first rfl
  · exact plainEncoding calls

theorem specialName : Goes budget need reads (Parse.specialName call) := by
  intro s level
  apply GoesFrom.peekPair_bind
  intro first second look
  dsimp only
  cases announced : SpecialForm.ofLetters? first second with
  | none => exact unexpected s level
  | some form =>
    have letter : Letter (s.cursor.peekAt 0) := look ▸ SpecialForm.letter announced
    cases form with
    | titled title rule =>
      apply GoesFrom.advance_bind letter level
      apply (calls.later rule).bind
      intro child
      exact make _
    | covariantThunk =>
      apply GoesFrom.advance_bind letter level
      apply callOffset.seq
      apply callOffset.seq
      apply (calls.later .encoding).bind
      intro encoding
      exact make _
    | constructionVtable =>
      apply GoesFrom.advance_bind letter level
      apply (calls.later .type).bind
      intro derived
      apply skipOffset.seq
      apply (expect (by decide)).seq
      apply (calls.later .type).bind
      intro base
      exact make _
    | referenceTemporary =>
      apply GoesFrom.advance_bind letter level
      apply (calls.later (.name false)).bind
      intro child
      apply (accept "_").bind
      intro isFirst
      apply bind
      · apply ensure
        apply (discard seqId).seq
        exact expect (by decide)
      intro _
      exact make _
    | thunk title =>
      apply GoesFrom.advance_bind letter level
      apply callOffset.seq
      apply (calls.later .encoding).bind
      intro encoding
      exact make _

theorem markedEncoding : Goes budget 6 false (Parse.markedEncoding call) := by
  apply peek.bind
  intro letter
  apply (calls.later _).bind
  intro encoding
  apply (node encoding).bind
  intro found
  apply bind
  · split
    · exact ensure (throw (by nofun))
    · exact pure ()
  intro _
  apply peek.bind
  intro letter
  refine ite ?_ (pure encoding)
  apply remainder.bind
  intro suffix
  exact make _

theorem blockInvocation : Goes budget 6 false (Parse.blockInvocation call) := by
  apply (calls.later _).bind
  intro encoding
  apply (expect (by decide)).seq
  apply (accept "_").bind
  intro held
  apply (number false).bind
  intro digits
  apply (ensure unexpected).seq
  apply peek.bind
  intro letter
  apply (ite (discard remainder) (pure ())).seq
  exact make _

theorem wholeSymbol : Goes budget 5 reads (Parse.symbol call) := by
  refine acceptEither_bind (by decide) (by decide) ((markedEncoding calls).bind finish) ?_
  refine acceptEither_bind (by decide) (by decide) ((blockInvocation calls).bind finish) ?_
  exact (calls.first rfl).andThen finish

/-- What a rule asks for inside is one less than what it asks for. -/
theorem body (rule : Rule) (level : s.level = budget.level) :
    GoesFrom budget (rule.need s.cursor - 1) true (rule.body call) s := by
  by_cases same : rule = .qualifiedType
  · subst same
    exact qualifiedType calls level
  rw [Rule.need, if_neg fun both => same both.1]
  cases rule with
  | symbol => exact wholeSymbol calls s level
  | encoding => exact encoding calls s level
  | specialName => exact specialName calls s level
  | name tracked => exact name calls tracked s level
  | unqualifiedName tracked => exact unqualifiedName calls tracked s level
  | nestedName tracked => exact nestedName calls tracked s level
  | localName tracked => exact localName calls tracked s level
  | operatorName tracked => exact operatorName calls tracked s level
  | substitution => exact substitution s level
  | templateArgs tracked => exact templateArgs calls tracked s level
  | templateArg => exact templateArg calls s level
  | type => exact type calls s level
  | qualifiedType => exact absurd rfl same
  | functionType => exact functionType calls s level
  | arrayType => exact arrayType calls s level
  | memberPointerType => exact memberPointerType calls s level
  | namedType => exact namedType calls s level
  | decltype => exact decltype calls s level
  | vectorType => exact vectorType calls s level
  | expression => exact expression calls s level
  | bracedExpression => exact bracedExpression calls s level
  | literal => exact literal calls s level
  | unresolvedName isGlobal => exact unresolvedName calls isGlobal s level
  | unresolvedType => exact unresolvedType calls s level
  | baseUnresolvedName => exact baseUnresolvedName calls s level

end Calls
end Goes
end Parse
end Unmangle
