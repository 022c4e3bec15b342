import Unmangle.Grammar.Parse
import Unmangle.Proofs.Grammar.Run

/-!
# What a successful step yields

A step yields what is so of its value and of the state behind it whenever it succeeds.
Events can be ruled out: nothing is claimed of a step on whose way one of them happens.
-/
namespace Unmangle.Parse

variable {α β : Type}

/-- What is so behind a step that succeeds without such an event. -/
def Yields (out : Event → Prop) (p : Parse α) (s : ParseState) (Q : α → ParseState → Prop) : Prop :=
  (∀ e, p.happens s e → ¬out e) → ∀ a t, p.run s = .ok a t → Q a t

namespace Yields

variable {out : Event → Prop} {p : Parse α} {s : ParseState} {Q Q' : α → ParseState → Prop}

theorem weaken (h : Yields out p s Q) (weaker : ∀ a t, Q a t → Q' a t) : Yields out p s Q' :=
  fun kept a t hr => weaker a t (h kept a t hr)

theorem pure {a : α} (h : Q a s) : Yields out (Pure.pure a) s Q := by
  rintro - _ _ ⟨⟩
  exact h

theorem throw (fault : Fault) : Yields out (Parse.throw fault) s Q := by
  rintro - _ _ ⟨⟩

theorem get {Q : ParseState → ParseState → Prop} (h : Q s s) :
    Yields out MonadState.get s Q := by
  rintro - _ _ ⟨⟩
  exact h

theorem step {run : ParseState → EStateM.Result Fault ParseState α}
    (h : ∀ a t, run s = .ok a t → Q a t) : Yields out (Parse.step run) s Q :=
  fun _ => h

theorem modified {f : ParseState → ParseState} {Q : Unit → ParseState → Prop} (h : Q () (f s)) :
    Yields out (modify f) s Q := by
  rintro - _ _ ⟨⟩
  exact h

/-- A step yields from where the step before it left off. -/
theorem bind {f : α → Parse β} {R : β → ParseState → Prop}
    (h : Yields out p s fun a t => Yields out (f a) t R) : Yields out (p >>= f) s R := by
  intro kept b u hu
  cases hr : p.run s with
  | ok a t =>
    have kept' : ∀ e, (f a).happens t e → ¬out e := fun e he =>
      kept e ((happens_bind_ok f hr e).mpr (.inr he))
    rw [run_bind_ok f hr] at hu
    exact h (fun e he => kept e (.inl he)) a t hr kept' b u hu
  | error fault t =>
    rw [run_bind_error f hr] at hu
    cases hu

theorem ite {c : Prop} [Decidable c] {q : Parse α} (yes : c → Yields out p s Q)
    (no : ¬c → Yields out q s Q) : Yields out (if c then p else q) s Q := by
  split
  · exact yes ‹_›
  · exact no ‹_›

theorem ensure {held : Bool} {otherwise : Parse Unit} {Q : Unit → ParseState → Prop}
    (yes : held = true → Q () s) (no : held = false → Yields out otherwise s Q) :
    Yields out (Parse.ensure held otherwise) s Q := by
  cases held with
  | false => exact no rfl
  | true => exact pure (yes rfl)

theorem orFault {value : Option α} {fault : Fault} (h : ∀ a, value = some a → Q a s) :
    Yields out (Parse.orFault value fault) s Q := by
  cases value with
  | none => exact throw fault
  | some a => exact pure (h a rfl)

theorem atEnd {Q : Bool → ParseState → Prop} (h : Q s.cursor.atEnd s) :
    Yields out Parse.atEnd s Q :=
  bind (get (pure h))

theorem unexpected : Yields out Parse.unexpected s Q := by
  apply bind
  apply atEnd
  exact ite (fun _ => throw _) fun _ => throw _

/-- What a token yields, whether it comes next or not. -/
theorem accept {token : String} {Q : Bool → ParseState → Prop}
    (hit : ∀ cursor, s.cursor.strip? token.toList = some cursor → Q true { s with cursor := cursor })
    (miss : s.cursor.strip? token.toList = none → Q false s) :
    Yields out (Parse.accept token) s Q := by
  refine step ?_
  intro a t
  cases hstrip : s.cursor.strip? token.toList with
  | none =>
    rintro ⟨⟩
    exact miss hstrip
  | some cursor =>
    rintro ⟨⟩
    exact hit cursor hstrip

theorem expect {token : String} {Q : Unit → ParseState → Prop}
    (h : ∀ cursor, s.cursor.strip? token.toList = some cursor → Q () { s with cursor := cursor }) :
    Yields out (Parse.expect token) s Q := by
  refine bind (accept (fun cursor hstrip => ?_) fun _ => ?_)
  · exact ensure (fun _ => h cursor hstrip) fun hfalse => by cases hfalse
  · exact ensure (fun hfalse => by cases hfalse) fun _ => unexpected

theorem deeper {limit : Nat}
    (h : Yields out p { s with level := s.level + 1 } fun a t => Q a (up t)) :
    Yields out (p.deeper limit) s Q := by
  intro kept a t hr
  by_cases room : s.level + 1 < limit
  · rw [run_deeper_of_lt room, thenAlways] at hr
    cases hp : p.run { s with level := s.level + 1 } with
    | error fault u =>
      simp only [hp] at hr
      cases hr
    | ok b u =>
      simp only [hp] at hr
      cases hr
      refine h (fun e he => kept e ?_) _ u hp
      exact (happens_deeper_of_lt room e).mpr (.inr (.inl he))
  · rw [run_deeper_of_le (Nat.le_of_not_lt room)] at hr
    cases hr

/-- Behind a rule, it is known that the rule was read. -/
theorem reading {rule : Rule} {p : Parse NodeId} {Q : NodeId → ParseState → Prop}
    (h : Yields out p s fun id t => ¬out (.reads rule s id t) → Q id t) :
    Yields out (p.reading rule) s Q :=
  fun kept id t hr => h (fun e he => kept e (.inl he)) id t hr (kept _ (.inr ⟨id, t, hr, rfl⟩))

/-- What a round keeps up holds where the loop ends. -/
theorem repeatUntil {close : Parse Bool} {item : α → Parse α} {Inv Round : α → ParseState → Prop}
    (hclose : ∀ a s, Inv a s →
      Yields out close s fun closed t => if closed then Q a t else Round a t)
    (hitem : ∀ a s, Round a s → Yields out (item a) s Inv) (rounds : List UInt8) :
    ∀ {a s}, Inv a s → Yields out (Parse.repeatUntil close item rounds a) s Q := by
  induction rounds with
  | nil => exact fun _ => throw _
  | cons _ rounds ih =>
    intro a s inv
    refine bind ((hclose a s inv).weaken fun closed t h => ?_)
    cases closed with
    | true => exact pure h
    | false => exact bind ((hitem a t h).weaken fun b u inv => ih inv)

theorem untilHolds (Inv Round : α → ParseState → Prop) {close : Parse Bool} {item : α → Parse α}
    (hclose : ∀ a s, Inv a s →
      Yields out close s fun closed t => if closed then Q a t else Round a t)
    (hitem : ∀ a s, Round a s → Yields out (item a) s Inv) {a : α} (start : Inv a s) :
    Yields out (Parse.untilHolds close a item) s Q :=
  bind (get (repeatUntil hclose hitem _ start))

end Yields
end Unmangle.Parse
