import Unmangle.Grammar.Encoding
import Unmangle.Proofs.Course.Name

/-!
# Encodings on course

An encoding answers every template parameter that came to wait in its name before it goes
on, and takes all of them off the list.
-/
namespace Unmangle

theorem SpecialForm.letter {first second : Char} {form : SpecialForm}
    (announced : ofLetters? first second = some form) : Letter first := by
  unfold ofLetters? at announced
  split at announced <;> first | decide | cases announced

/-- A second letter that is read is one. -/
theorem SpecialForm.letter_second {first second : Char} {form : SpecialForm}
    (announced : ofLetters? first second = some form) (wide : ∀ title, form ≠ .thunk title) :
    Letter second := by
  unfold ofLetters? at announced
  split at announced <;> cases announced <;> first | decide | exact absurd rfl (wide _)

namespace OnCourse

variable {symbol : ByteArray} {call : Calls} {s : ParseState}

/-- Only a template parameter that waited is given an argument. -/
theorem answer {id : NodeId} {index : Nat} {old : Option NodeId} (target : NodeId)
    (found : s.work.tree.get? id = some (.forwardParam index old)) :
    Leads symbol (Parse.patch id (.forwardParam index (some target))) s fun _ t =>
      t.work.tree.Answered id ∧ t.work.forward = s.work.forward := by
  rintro ground _ t ⟨⟩
  have course : Course symbol s { s with work := { s.work with
      tree := s.work.tree.set id (.forwardParam index (some target)) } } :=
    .one (.answer id index old target found)
  refine ⟨course, ⟨⟨index, target, ?_⟩, rfl⟩, ?_⟩
  · exact ground.intact.get?_set_self (by rw [found]; rfl) _
  · rintro u (⟨⟨⟩⟩ | ⟨⟨⟩⟩)
    exact .last course

/-- A parameter that is resolved has its argument, and the list of those that wait stays. -/
theorem resolve (id : NodeId) :
    Leads symbol (Parse.resolve id) s fun _ t =>
      t.work.tree.Answered id ∧ t.work.forward = s.work.forward := by
  refine Leads.bind (Q := fun found t => found = s.work.tree.node id ∧ t = s) ?_ ?_
  · rintro - _ _ ⟨⟩
    refine ⟨.refl s, ⟨rfl, rfl⟩, ?_⟩
    rintro u ⟨⟩
  · rintro found t - - ⟨here, rfl⟩
    split
    · rename_i index old
      have found : t.work.tree.get? id = some (.forwardParam index old) := by
        rw [Tree.node] at here
        cases hget : t.work.tree.get? id with
        | none =>
          rw [hget] at here
          cases here
        | some node =>
          rw [hget] at here
          exact congrArg some here.symm
      apply Leads.get_bind
      apply Leads.orFault_bind
      intro target _
      exact answer target found
    · exact .throw _

/-- What was answered stays answered while the others are. -/
theorem forM_resolve (ids : List NodeId) :
    ∀ s, Leads symbol (ids.forM Parse.resolve) s fun _ t =>
      (∀ id ∈ ids, t.work.tree.Answered id) ∧ t.work.forward = s.work.forward := by
  induction ids with
  | nil => exact fun s => .pure ⟨nofun, rfl⟩
  | cons id ids ih =>
    intro s
    apply (resolve id).bind
    intro _ t ground _ first
    refine (ih t).weaken ?_
    intro _ u course others
    refine ⟨?_, others.2.trans first.2⟩
    intro other mem
    obtain rfl | mem := List.mem_cons.mp mem
    · exact course.answered ground first.1
    · exact others.1 other mem

theorem resolveSince (mark : Nat) : OnCourse symbol (Parse.resolveSince mark) := by
  intro s
  apply Leads.get_bind
  apply (forM_resolve _ s).bind
  intro _ t _ _ known
  refine .modified (.one (.settle mark fun id mem => known.1 id ?_)) trivial
  rwa [← known.2]

theorem skipOffset : OnCourse symbol Parse.skipOffset := by
  apply (number true).bind
  intro digits
  exact ensure unexpected

theorem callOffset : OnCourse symbol Parse.callOffset := by
  apply (accept (by decide)).bind
  intro held
  apply ite
  · apply skipOffset.seq
    exact expect (by decide)
  · apply (accept (by decide)).bind
    intro held
    refine ite ?_ unexpected
    apply skipOffset.seq
    apply (expect (by decide)).seq
    apply skipOffset.seq
    exact expect (by decide)

theorem finish (root : NodeId) : OnCourse symbol (Parse.finish root) := by
  apply atEnd.bind
  intro ended
  apply (ensure (throw _)).seq
  apply get.bind
  intro s
  apply (ensure (throw _)).seq
  exact pure root

theorem acceptEither {token other : String} (ascii : AsciiToken token)
    (ascii' : AsciiToken other) :
    OnCourse symbol (do if ← Parse.accept token then return true else Parse.accept other) := by
  apply (accept ascii).bind
  intro held
  exact ite (pure true) (accept ascii')

variable (calls : ∀ rule, OnCourse symbol (call rule))
include calls

/-- What came to wait in the name of an encoding is resolved behind it. -/
theorem plainEncoding : OnCourse symbol (Parse.plainEncoding call) := by
  apply get.bind
  intro before
  apply (calls (.name true)).bind
  intro name
  apply (resolveSince _).seq
  apply atEncodingEnd.bind
  intro ended
  refine ite (pure name) ?_
  apply get.bind
  intro after
  apply (ite (map (calls .type)) (pure none)).bind
  intro result
  apply (accept (by decide)).bind
  intro held
  refine OnCourse.bind ?_ fun params => ?_
  · exact ite (pure #[]) (someNodes atEncodingEnd (calls .type))
  · apply (makeList params).bind
    intro list
    exact make rfl nofun

theorem encoding : OnCourse symbol (Parse.encoding call) := by
  apply get.bind
  intro before
  apply OnCourse.seq
  · exact modified ⟨fun _ => rfl, fun _ => rfl, fun _ => rfl⟩
  refine thenAlways ⟨fun _ => rfl, fun _ => rfl, fun _ => rfl⟩ ?_
  apply peek.bind
  intro letter
  split
  · exact calls .specialName
  · exact calls .specialName
  · exact plainEncoding calls

theorem specialName : OnCourse symbol (Parse.specialName call) := by
  intro s
  apply Leads.peekPair_bind
  intro first second look look'
  dsimp only
  cases announced : SpecialForm.ofLetters? first second with
  | none => exact .unexpected
  | some form =>
    have letter := SpecialForm.letter announced
    cases form with
    | titled title rule =>
      apply (Leads.advance_two look look' letter (SpecialForm.letter_second announced nofun)).next
      intro _
      apply (calls rule).bind
      intro child
      exact make rfl nofun
    | covariantThunk =>
      apply (Leads.advance_two look look' letter (SpecialForm.letter_second announced nofun)).next
      intro _
      apply callOffset.seq
      apply callOffset.seq
      apply (calls .encoding).bind
      intro encoding
      exact make rfl nofun
    | constructionVtable =>
      apply (Leads.advance_two look look' letter (SpecialForm.letter_second announced nofun)).next
      intro _
      apply (calls .type).bind
      intro derived
      apply skipOffset.seq
      apply (expect (by decide)).seq
      apply (calls .type).bind
      intro base
      exact make rfl nofun
    | referenceTemporary =>
      apply (Leads.advance_two look look' letter (SpecialForm.letter_second announced nofun)).next
      intro _
      apply (calls (.name false)).bind
      intro child
      apply (accept (by decide)).bind
      intro isFirst
      apply OnCourse.bind
      · apply ensure
        apply (discard seqId).seq
        exact expect (by decide)
      intro _
      exact make rfl nofun
    | thunk title =>
      apply (Leads.advance_one look letter).next
      intro _
      apply callOffset.seq
      apply (calls .encoding).bind
      intro encoding
      exact make rfl nofun

theorem markedEncoding : OnCourse symbol (Parse.markedEncoding call) := by
  apply peek.bind
  intro letter
  apply (calls .encoding).bind
  intro encoding
  apply (node encoding).bind
  intro found
  apply OnCourse.bind
  · split
    · exact ensure (throw _)
    · exact pure ()
  intro _ s
  apply Leads.peek_bind
  intro char look
  refine .ite (fun isDot => ?_) fun _ => .pure trivial
  obtain rfl : char = '.' := by simpa using isDot
  apply (Leads.remainder look (by decide)).bind
  intro suffix t _ _ whole
  exact .make_text whole rfl nofun

theorem blockInvocation : OnCourse symbol (Parse.blockInvocation call) := by
  apply (calls .encoding).bind
  intro encoding
  apply (expect (by decide)).seq
  apply (accept (by decide)).bind
  intro held
  apply (number false).bind
  intro digits
  apply (ensure unexpected).bind
  intro _ s
  refine .peek_bind ?_
  intro char look
  refine Leads.next (Q := fun _ _ => True) (.ite (fun isDot => ?_) fun _ => .pure trivial)
    fun _ => make rfl nofun
  obtain rfl : char = '.' := by simpa using isDot
  apply (Leads.remainder look (by decide)).next
  intro _
  exact pure _

theorem wholeSymbol : OnCourse symbol (Parse.symbol call) := by
  apply (acceptEither (by decide) (by decide)).bind
  intro marked
  apply ite
  · exact (markedEncoding calls).bind finish
  · apply (acceptEither (by decide) (by decide)).bind
    intro marked
    apply ite
    · exact (blockInvocation calls).bind finish
    · exact (calls .type).bind finish

end OnCourse
end Unmangle
