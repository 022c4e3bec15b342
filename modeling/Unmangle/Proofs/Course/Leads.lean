import Unmangle.Grammar.Token
import Unmangle.Proofs.Course.Move
import Unmangle.Proofs.Grammar.Run

/-!
# Steps that keep on course

A step of a parse leads from one state to another on the course of the parse whenever it
succeeds, and all that it builds on the way is built on that course. Steps that do so one
after another do so together.
-/
namespace Unmangle

/-- The course runs through a state with such a tree. -/
def Course.Passes (symbol : ByteArray) (s t : ParseState) (tree : Tree) : Prop :=
  ∃ v, Course symbol s v ∧ v.work.tree = tree ∧ Course symbol v t

variable {symbol : ByteArray} {s t u : ParseState} {tree : Tree}

namespace Course.Passes

theorem append (h : Course.Passes symbol s t tree) (course : Course symbol t u) :
    Course.Passes symbol s u tree := by
  obtain ⟨v, before, same, behind⟩ := h
  exact ⟨v, before, same, behind.trans course⟩

theorem prepend (course : Course symbol s t) (h : Course.Passes symbol t u tree) :
    Course.Passes symbol s u tree := by
  obtain ⟨v, before, same, behind⟩ := h
  exact ⟨v, course.trans before, same, behind⟩

theorem last (course : Course symbol s t) : Course.Passes symbol s t t.work.tree :=
  ⟨t, course, rfl, .refl t⟩

end Course.Passes

variable {α β : Type}

/-- The step keeps on the course of a parse of the symbol, and its result is as told. -/
def Leads (symbol : ByteArray) (p : Parse α) (s : ParseState)
    (Q : α → ParseState → Prop) : Prop :=
  s.Grounded symbol → ∀ a t, p.run s = .ok a t →
    Course symbol s t ∧ Q a t ∧
      ∀ u, p.happens s (.visits u) → Course.Passes symbol s t u.work.tree

/-- The step keeps on the course from wherever it starts. -/
def OnCourse (symbol : ByteArray) (p : Parse α) : Prop :=
  ∀ s, Leads symbol p s fun _ _ => True

/-- The change is one of neither the cursor, the tree nor the template parameters that wait. -/
structure Aside (f : ParseState → ParseState) : Prop where
  cursor : ∀ s, (f s).cursor = s.cursor
  tree : ∀ s, (f s).work.tree = s.work.tree
  forward : ∀ s, (f s).work.forward = s.work.forward

theorem Aside.course {f : ParseState → ParseState} (aside : Aside f) (s : ParseState) :
    Course symbol s (f s) :=
  .one (.aside (aside.cursor s) (aside.tree s) (aside.forward s))

namespace Leads

variable {p : Parse α} {Q Q' : α → ParseState → Prop}

theorem weaken (h : Leads symbol p s Q) (weaker : ∀ a t, Course symbol s t → Q a t → Q' a t) :
    Leads symbol p s Q' := by
  intro ground a t hr
  obtain ⟨course, value, built⟩ := h ground a t hr
  exact ⟨course, weaker a t course value, built⟩

theorem pure {a : α} (h : Q a s) : Leads symbol (Pure.pure a) s Q := by
  rintro - _ _ ⟨⟩
  exact ⟨.refl s, h, fun u hu => (Parse.happens_pure a _ hu).elim⟩

theorem throw (fault : Fault) : Leads symbol (Parse.throw fault) s Q := by
  rintro - _ _ ⟨⟩

/-- Behind a step on its course the next one starts from a grounded state. -/
theorem bind {f : α → Parse β} {R : β → ParseState → Prop} (h : Leads symbol p s Q)
    (hf : ∀ a t, t.Grounded symbol → Course symbol s t → Q a t → Leads symbol (f a) t R) :
    Leads symbol (p >>= f) s R := by
  intro ground b u hu
  cases hr : p.run s with
  | error fault t =>
    rw [Parse.run_bind_error f hr] at hu
    cases hu
  | ok a t =>
    rw [Parse.run_bind_ok f hr] at hu
    obtain ⟨course, value, built⟩ := h ground a t hr
    have ground' := course.grounded ground
    obtain ⟨course', value', built'⟩ := hf a t ground' course value ground' b u hu
    refine ⟨course.trans course', value', fun v hv => ?_⟩
    rw [Parse.happens_bind_ok f hr] at hv
    obtain first | next := hv
    · exact (built v first).append course'
    · exact .prepend course (built' v next)

theorem get {Q : ParseState → ParseState → Prop} (h : Q s s) :
    Leads symbol MonadState.get s Q := by
  rintro - _ _ ⟨⟩
  exact ⟨.refl s, h, fun u hu => (Parse.happens_get _ hu).elim⟩

theorem ite {c : Prop} [Decidable c] {q : Parse α} (yes : c → Leads symbol p s Q)
    (no : ¬c → Leads symbol q s Q) : Leads symbol (if c then p else q) s Q := by
  split
  · exact yes ‹_›
  · exact no ‹_›

theorem step {run : ParseState → EStateM.Result Fault ParseState α}
    (h : ∀ a t, run s = .ok a t → Course symbol s t ∧ Q a t) :
    Leads symbol (Parse.step run) s Q := by
  intro _ a t hr
  obtain ⟨course, value⟩ := h a t hr
  refine ⟨course, value, ?_⟩
  rintro u ⟨rfl⟩
  change run s = .ok a t at hr
  rw [hr]
  exact .last course

theorem modified {f : ParseState → ParseState} {Q : Unit → ParseState → Prop}
    (course : Course symbol s (f s)) (h : Q () (f s)) : Leads symbol (modify f) s Q := by
  rintro - _ _ ⟨⟩
  refine ⟨course, h, ?_⟩
  rintro u ⟨⟩
  exact .last course

/-- A change beside the course may come behind any step. -/
theorem thenAlways {f : ParseState → ParseState} (aside : Aside f)
    (h : Leads symbol p s fun a t => Q a (f t)) :
    Leads symbol (p.thenAlways f) s Q := by
  intro ground a u hu
  cases hr : p.run s with
  | error fault t =>
    simp only [Parse.thenAlways, hr] at hu
    cases hu
  | ok b t =>
    simp only [Parse.thenAlways, hr] at hu
    cases hu
    obtain ⟨course, value, built⟩ := h ground a t hr
    have course' : Course symbol s (f t) := course.trans (aside.course t)
    refine ⟨course', value, ?_⟩
    rintro v (first | last)
    · exact (built v first).append (aside.course t)
    · rw [hr] at last
      cases last
      exact .last course'

/-- What the first step tells is not needed behind it. -/
theorem next {f : α → Parse β} (h : Leads symbol p s Q) (hf : ∀ a, OnCourse symbol (f a)) :
    Leads symbol (p >>= f) s fun _ _ => True := by
  apply h.bind
  intro a t _ _ _
  exact hf a t

end Leads

namespace OnCourse

variable {p : Parse α}

theorem bind {f : α → Parse β} (h : OnCourse symbol p) (hf : ∀ a, OnCourse symbol (f a)) :
    OnCourse symbol (p >>= f) :=
  fun s => (h s).next hf

/-- What the first step comes to is not needed behind it. -/
theorem seq {q : Parse β} (h : OnCourse symbol p) (next : OnCourse symbol q) :
    OnCourse symbol (do let _ ← p; q) :=
  h.bind fun _ => next

theorem pure (a : α) : OnCourse symbol (Pure.pure a : Parse α) :=
  fun _ => .pure trivial

theorem throw (fault : Fault) : OnCourse symbol (Parse.throw fault : Parse α) :=
  fun _ => .throw fault

theorem ite {c : Prop} [Decidable c] {q : Parse α} (yes : OnCourse symbol p)
    (no : OnCourse symbol q) : OnCourse symbol (if c then p else q) :=
  fun s => .ite (fun _ => yes s) fun _ => no s

theorem get : OnCourse symbol (MonadState.get : Parse ParseState) :=
  fun _ => .get trivial

theorem modified {f : ParseState → ParseState} (aside : Aside f) :
    OnCourse symbol (modify f : Parse Unit) :=
  fun s => .modified (aside.course s) trivial

theorem thenAlways {f : ParseState → ParseState} (aside : Aside f) (h : OnCourse symbol p) :
    OnCourse symbol (p.thenAlways f) :=
  fun s => .thenAlways aside (h s)

theorem ensure {held : Bool} {otherwise : Parse Unit} (h : OnCourse symbol otherwise) :
    OnCourse symbol (Parse.ensure held otherwise) :=
  ite (pure ()) h

theorem orFault (value : Option α) (fault : Fault) :
    OnCourse symbol (Parse.orFault value fault) := by
  cases value with
  | some value => exact pure value
  | none => exact throw fault

theorem map {f : α → β} (h : OnCourse symbol p) : OnCourse symbol (f <$> p) := by
  apply h.bind
  intro a
  exact pure (f a)

theorem discard (h : OnCourse symbol p) : OnCourse symbol (Functor.discard p) :=
  h.map

/-- A step stays on its course one level deeper. -/
theorem deeper (limit : Nat) (h : OnCourse symbol p) : OnCourse symbol (p.deeper limit) := by
  apply get.bind
  intro s
  apply (ensure (throw _)).seq
  refine OnCourse.bind ?_ fun _ => ?_
  · exact modified ⟨fun _ => rfl, fun _ => rfl, fun _ => rfl⟩
  · exact thenAlways ⟨fun _ => rfl, fun _ => rfl, fun _ => rfl⟩ h

theorem reading (rule : Rule) {p : Parse NodeId} (h : OnCourse symbol p) :
    OnCourse symbol (p.reading rule) := by
  intro s ground a t hr
  obtain ⟨course, -, built⟩ := h s ground a t hr
  refine ⟨course, trivial, ?_⟩
  rintro u (hu | ⟨_, _, _, ⟨⟩⟩)
  exact built u hu

/-- A repetition stays on its course if each round does. -/
theorem repeatUntil {close : Parse Bool} {item : α → Parse α} (hclose : OnCourse symbol close)
    (hitem : ∀ a, OnCourse symbol (item a)) (rounds : List UInt8) (a : α) :
    OnCourse symbol (Parse.repeatUntil close item rounds a) := by
  induction rounds generalizing a with
  | nil => exact throw _
  | cons _ rounds ih =>
    apply hclose.bind
    intro closed
    exact ite (pure a) ((hitem a).bind ih)

theorem untilHolds {close : Parse Bool} {item : α → Parse α} (hclose : OnCourse symbol close)
    (hitem : ∀ a, OnCourse symbol (item a)) (a : α) :
    OnCourse symbol (Parse.untilHolds close a item) := by
  apply get.bind
  intro s
  exact repeatUntil hclose hitem _ a

theorem moreNodes {close : Parse Bool} {item : Parse NodeId} (hclose : OnCourse symbol close)
    (hitem : OnCourse symbol item) (nodes : Array NodeId) :
    OnCourse symbol (Parse.moreNodes close item nodes) := by
  refine untilHolds hclose (fun nodes => ?_) nodes
  apply hitem.bind
  intro id
  exact pure (nodes.push id)

theorem someNodes {close : Parse Bool} {item : Parse NodeId} (hclose : OnCourse symbol close)
    (hitem : OnCourse symbol item) : OnCourse symbol (Parse.someNodes close item) := by
  apply hitem.bind
  intro id
  exact moreNodes hclose hitem #[id]

end OnCourse
end Unmangle
