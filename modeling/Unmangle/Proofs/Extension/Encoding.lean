import Unmangle.Grammar.Parse
import Unmangle.Proofs.Extension.Expression
import Unmangle.Proofs.Extension.Type

/-!
# Encodings with more behind them

An encoding that is read up to its last byte is read in the same way when a suffix stands
behind it.
-/
namespace Unmangle

theorem SpecialForm.blind (first : Char) : Blind (ofLetters? first) := by
  by_cases thunk : first = 'T'
  · subst thunk
    exact ⟨rfl, rfl⟩
  · constructor <;> simp [ofLetters?, thunk]

theorem SpecialForm.first_ne_nul {first second : Char} {form : SpecialForm}
    (announced : ofLetters? first second = some form) : first ≠ '\x00' := by
  unfold ofLetters? at announced
  split at announced <;> first | decide | cases announced

theorem SpecialForm.second_ne_nul {first second : Char} {form : SpecialForm}
    (announced : ofLetters? first second = some form) (wide : ∀ title, form ≠ .thunk title) :
    second ≠ '\x00' := by
  unfold ofLetters? at announced
  split at announced <;> cases announced <;> first | decide | exact absurd rfl (wide _)

theorem SpecialForm.rule_ne_symbol {first second : Char} {title : String} {rule : Rule}
    (announced : ofLetters? first second = some (titled title rule)) : rule ≠ .symbol := by
  unfold ofLetters? at announced
  split at announced <;> cases announced <;> decide

namespace Parse

namespace Extends

variable {tail : List UInt8} {A : Rests}

theorem resolve (id : NodeId) :
    Extends tail A (Parse.resolve id) (Parse.resolve id) fun _ => A := by
  apply (still (.node id)).bind
  intro node
  split
  · apply known_bind fun _ => rfl
    intro state
    apply (still (.orFault _ _)).bind
    intro target
    exact still (.patch id _)
  · exact throw _

theorem resolveSince (mark : Nat) :
    Extends tail A (Parse.resolveSince mark) (Parse.resolveSince mark) fun _ => A := by
  have each (ids : List NodeId) :
      Extends tail A (ids.forM Parse.resolve) (ids.forM Parse.resolve) fun _ => A := by
    induction ids with
    | nil => exact pure fun _ => id
    | cons id ids ih => exact (resolve id).seq ih
  apply known_bind fun _ => rfl
  intro state
  apply (each _).seq
  exact still (.modified (fun _ => rfl) fun _ => rfl)

variable (suffix : Suffix tail)
include suffix

theorem skipOffset :
    Extends tail Barred Parse.skipOffset Parse.skipOffset fun _ => .never := by
  apply of_never
  · apply (number suffix true).bind
    intro offset
    cases offset.isEmpty with
    | true => exact unexpected
    | false => exact pure fun _ => id
  · intro s h
    exact Fails.number_bind h Fails.unexpected

theorem callOffset :
    Extends tail .never Parse.callOffset Parse.callOffset fun _ => .never := by
  have skip : Extends tail .never Parse.skipOffset Parse.skipOffset fun _ => .never :=
    (skipOffset suffix).narrow fun _ => Rests.never.barred
  apply accept_bind suffix (by decide) fun _ => Rests.never.barred
  · apply skip.seq
    exact expected "_"
  apply accept_bind suffix (by decide) fun _ => Rests.never.barred
  · apply skip.seq
    apply (expected "_").seq
    apply skip.seq
    exact expected "_"
  · exact unexpected

variable {call : Calls} (reads : ReadsBefore tail call)
include reads

/-- Parameters are read up to where no more of them can begin. -/
theorem plainEncoding : Extends tail .never (Parse.plainEncoding call)
    (Parse.plainEncoding call) fun _ => Stranded := by
  have type := reads.rule (A := Stranded) (fun _ => Stranded.barred) .type nofun
  have atEnd := atEncodingEnd suffix fun _ => Stranded.underscored
  apply known_bind fun _ => rfl
  intro state
  apply (reads.extends_never (.name true) nofun).bind
  intro name
  apply (resolveSince _).seq
  apply atEnd.bind
  intro ended
  apply ite
  · exact fun _ => pure fun _ h => h.2
  intro more
  apply Extends.narrow (A := .never)
  · apply known_bind fun _ => rfl
    intro state
    apply Extends.bind (B := fun _ => Stranded)
    · apply ite
      · exact fun _ => (reads.extends_never .type nofun).map
      · exact fun _ => pure fun _ h => h.elim
    intro result
    apply (accept suffix (by decide) fun _ => Stranded.barred).bind
    intro none
    apply Extends.bind (B := fun _ => Stranded)
    · apply ite
      · exact fun _ => pure fun _ h => h.2
      · intro _
        apply someNodes atEnd (fun _ h => h.2)
        · exact type.narrow fun _ h => h.2
        · exact type.narrow fun _ h => h.2
    intro params
    apply (makeList params).bind
    intro list
    exact make _
  · exact fun _ h => more h.1

theorem encoding : Extends tail .never (Parse.encoding call) (Parse.encoding call)
    fun _ => Underscored := by
  have plain := (plainEncoding suffix reads).widen fun _ _ => Stranded.underscored
  apply known_bind fun _ => rfl
  intro before
  refine modify_bind (fun _ => rfl) (fun _ => rfl) ?_
  refine thenAlways ?_ (fun _ => rfl) fun _ => rfl
  apply peek_bind suffix ⟨rfl, rfl⟩
  intro char
  split
  · exact reads.extends_never .specialName nofun
  · exact reads.extends_never .specialName nofun
  · exact plain

theorem specialName : Extends tail .never (Parse.specialName call) (Parse.specialName call)
    fun _ => Underscored := by
  apply peekPair_bind suffix
  · intro first
    obtain ⟨dot, bar⟩ := SpecialForm.blind first
    constructor
    · dsimp only
      rw [dot]
    · dsimp only
      rw [bar]
  · exact fun _ _ => Fails.unexpected
  · intro s some
    dsimp only
    cases announced : SpecialForm.ofLetters? (s.cursor.peekAt 0) (s.cursor.peekAt 1) with
    | none => exact .of_fails Fails.unexpected
    | some form =>
      cases form with
      | titled title rule =>
        apply ExtendsFrom.advance_two rfl (SpecialForm.second_ne_nul announced nofun)
        have child := reads.extends_never rule (SpecialForm.rule_ne_symbol announced)
        apply (child.widen fun _ _ => Rule.leaves_underscored).bind
        intro child
        exact make _
      | covariantThunk =>
        apply ExtendsFrom.advance_two rfl (SpecialForm.second_ne_nul announced nofun)
        apply (callOffset suffix).seq
        apply (callOffset suffix).seq
        apply (reads.extends_never .encoding nofun).bind
        intro child
        exact make _
      | constructionVtable =>
        apply ExtendsFrom.advance_two rfl (SpecialForm.second_ne_nul announced nofun)
        apply (reads.extends_never .type nofun).bind
        intro derived
        apply ((skipOffset suffix).narrow fun _ => Stranded.barred).seq
        apply (expected "_").seq
        apply (reads.extends_never .type nofun).bind
        intro base
        exact (make _).widen fun _ _ => Stranded.underscored
      | referenceTemporary =>
        apply ExtendsFrom.advance_two rfl (SpecialForm.second_ne_nul announced nofun)
        apply (reads.extends_never (.name false) nofun).bind
        intro child
        apply (acceptBar fun _ => Stranded.eats).bind
        intro held
        apply Extends.bind (B := fun _ => Underscored)
        · cases held with
          | true => exact pure fun _ => id
          | false =>
            apply ((seqId suffix).narrow fun _ => Barred.of_nil).discard.seq
            exact (expected "_").always
        intro _
        exact make _
      | thunk title =>
        apply ExtendsFrom.advance_one rfl (SpecialForm.first_ne_nul announced)
        apply (callOffset suffix).seq
        apply (reads.extends_never .encoding nofun).bind
        intro child
        exact make _

/-- What each rule leaves in front of the bytes that follow the symbol. -/
theorem body (rule : Rule) (other : rule ≠ .symbol) :
    Extends tail .never (rule.body call) (rule.body call) fun _ => rule.leaves := by
  cases rule with
  | symbol => exact absurd rfl other
  | encoding => exact encoding suffix reads
  | specialName => exact specialName suffix reads
  | name tracked => exact name suffix reads tracked
  | unqualifiedName tracked => exact unqualifiedName suffix reads tracked
  | nestedName tracked => exact nestedName suffix reads tracked
  | localName tracked => exact localName suffix reads tracked
  | operatorName tracked => exact operatorName suffix reads tracked
  | substitution => exact (substitution suffix).always
  | templateArgs tracked => exact templateArgs suffix reads tracked
  | templateArg => exact templateArg suffix reads
  | type => exact type suffix reads
  | qualifiedType => exact qualifiedType suffix reads
  | functionType => exact functionType suffix reads
  | arrayType => exact arrayType suffix reads
  | memberPointerType => exact memberPointerType suffix reads
  | namedType => exact namedType suffix reads
  | decltype => exact decltype suffix reads
  | vectorType => exact vectorType suffix reads
  | expression => exact expression suffix reads
  | bracedExpression => exact bracedExpression suffix reads
  | literal => exact literal suffix reads
  | unresolvedName isGlobal => exact unresolvedName suffix reads isGlobal
  | unresolvedType => exact unresolvedType suffix reads
  | baseUnresolvedName => exact baseUnresolvedName suffix reads

end Extends

variable {tail : List UInt8}

theorem ReadsBefore.parse (suffix : Suffix tail) (limit levels : Nat) :
    ReadsBefore tail (Rule.parse limit levels) := by
  induction levels with
  | zero =>
    constructor
    · intro rule s other h
      exact Fails.parse other h
    · intro rule other
      exact Extends.throw _
  | succ levels ih =>
    constructor
    · intro rule s other h
      exact Fails.parse other h
    · intro rule other
      exact (Extends.body suffix ih rule other).deeper

/-- An encoding that takes up all bytes is the same one with a suffix behind it. -/
theorem run_encoding_followed (suffix : Suffix tail) {limit levels : Nat} {s t : ParseState}
    {id : NodeId} (whole : t.cursor.rest = [])
    (run : (Rule.parse limit levels .encoding).run s = .ok id t) :
    (Rule.parse limit levels .encoding).run (s.followed tail) = .ok id (t.followed tail) := by
  have reads := ReadsBefore.parse suffix limit levels
  obtain ⟨-, same | ended⟩ := reads.extends_never .encoding nofun s id t run
  · exact same
  · obtain ⟨more, some⟩ : Underscored t.cursor.rest := ended
    rw [whole] at some
    cases some

end Parse
end Unmangle
