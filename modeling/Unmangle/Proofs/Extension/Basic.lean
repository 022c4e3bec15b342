import Unmangle.Proofs.Grammar.Barred

/-!
# More bytes behind a symbol

A production that succeeds on some bytes succeeds in the same way when a suffix stands behind
them. Only the number behind a local entity may take up the beginning of a suffix, and only
where its own bytes end in an unfinished number. No symbol that is read whole ends there, so
such an end is kept apart as a stranded one.
-/
namespace Unmangle

/-- What may stand behind an encoding: a dot, or the name of a block's function. -/
def Suffix (tail : List UInt8) : Prop :=
  (∃ more, tail = 46 :: more) ∨ ∃ more, tail = 95 :: 98 :: more

abbrev Rests := List UInt8 → Prop

def Rests.never : Rests :=
  fun _ => False

def Underscored : Rests :=
  fun rest => ∃ more, rest = 95 :: more

/-- Two underscores and a number are left, without the underscore that would end it. -/
def Stranded : Rests :=
  fun rest => ∃ digits, digits ≠ [] ∧ digits.all Number.isDigit = true ∧ rest = 95 :: 95 :: digits

theorem Stranded.underscored {rest : List UInt8} (h : Stranded rest) : Underscored rest := by
  obtain ⟨digits, -, -, rfl⟩ := h
  exact ⟨_, rfl⟩

theorem Stranded.eats {rest : List UInt8} (h : Stranded rest) :
    ∃ more, rest = 95 :: more ∧ Underscored more := by
  obtain ⟨digits, -, -, rfl⟩ := h
  exact ⟨_, rfl, _, rfl⟩

theorem Rests.never.eats {rest : List UInt8} (h : Rests.never rest) :
    ∃ more, rest = 95 :: more ∧ Rests.never more :=
  h.elim

theorem Rests.never.barred {rest : List UInt8} (h : Rests.never rest) : Barred rest :=
  h.elim

theorem Underscored.barred {rest : List UInt8} (h : Underscored rest) : Barred rest := by
  obtain ⟨more, rfl⟩ := h
  intro byte hbyte
  exact (Option.some.inj hbyte).symm

theorem Stranded.barred {rest : List UInt8} (h : Stranded rest) : Barred rest :=
  h.underscored.barred

def ParseState.followed (s : ParseState) (tail : List UInt8) : ParseState :=
  { s with cursor := ⟨s.cursor.offset, s.cursor.rest ++ tail⟩ }

namespace Parse

variable {α β γ : Type} {tail : List UInt8} {s : ParseState} {doomed : Prop}

/-- Where the first step succeeds, the second does the same with a suffix behind the bytes, or
the end is one of some kind. From a doomed state the end is always of that kind. -/
def ExtendsFrom (tail : List UInt8) (s : ParseState) (doomed : Prop) (p p' : Parse α)
    (B : α → Rests) : Prop :=
  ∀ a t, p.run s = .ok a t →
    (doomed → B a t.cursor.rest) ∧
      (p'.run (s.followed tail) = .ok a (t.followed tail) ∨ B a t.cursor.rest)

/-- The same from every state, those with some bytes left being doomed. -/
def Extends (tail : List UInt8) (A : Rests) (p p' : Parse α) (B : α → Rests) : Prop :=
  ∀ s, ExtendsFrom tail s (A s.cursor.rest) p p' B

/-- A step that neither looks at the bytes that are left nor moves over any. -/
def Still (tail : List UInt8) (p : Parse α) : Prop :=
  ∀ s a t, p.run s = .ok a t →
    t.cursor = s.cursor ∧ p.run (s.followed tail) = .ok a (t.followed tail)

namespace ExtendsFrom

variable {p p' : Parse α} {B : α → Rests} {C : β → Rests}

theorem of_fails (h : Fails p s) : ExtendsFrom tail s doomed p p' B := by
  intro a t hr
  exact absurd hr (h a t)

theorem weaken {B' : α → Rests} {doomed' : Prop} (h : ExtendsFrom tail s doomed p p' B)
    (fewer : doomed' → doomed) (more : ∀ a rest, B a rest → B' a rest) :
    ExtendsFrom tail s doomed' p p' B' := by
  intro a t hr
  obtain ⟨stuck, same⟩ := h a t hr
  exact ⟨fun d => more a _ (stuck (fewer d)), same.imp_right (more a _)⟩

theorem pure {a : α} (h : doomed → B a s.cursor.rest) :
    ExtendsFrom tail s doomed (Pure.pure a) (Pure.pure a) B := by
  rintro _ _ ⟨⟩
  exact ⟨h, .inl rfl⟩

/-- Two steps in a row read the same where each of them does. -/
theorem bind {f f' : α → Parse β} (h : ExtendsFrom tail s doomed p p' B)
    (hf : ∀ a t, p.run s = .ok a t → ExtendsFrom tail t (B a t.cursor.rest) (f a) (f' a) C) :
    ExtendsFrom tail s doomed (p >>= f) (p' >>= f') C := by
  intro b u hu
  cases hr : p.run s with
  | error fault t =>
    rw [run_bind_error f hr] at hu
    cases hu
  | ok a t =>
    rw [run_bind_ok f hr] at hu
    obtain ⟨stuck, same⟩ := h a t hr
    obtain ⟨stuck', same'⟩ := hf a t hr b u hu
    refine ⟨fun d => stuck' (stuck d), ?_⟩
    rcases same with same | ended
    · rw [run_bind_ok f' same]
      exact same'
    · exact .inr (stuck' ended)

theorem ite {c : Prop} [Decidable c] {q q' : Parse α}
    (yes : c → ExtendsFrom tail s doomed p p' B) (no : ¬c → ExtendsFrom tail s doomed q q' B) :
    ExtendsFrom tail s doomed (if c then p else q) (if c then p' else q') B := by
  split
  · exact yes ‹_›
  · exact no ‹_›

theorem ensure_bind {held : Bool} {otherwise : Parse Unit} {f f' : Unit → Parse β}
    (fails : ∀ s, Fails otherwise s) (h : held = true → ExtendsFrom tail s doomed (f ()) (f' ()) C) :
    ExtendsFrom tail s doomed (ensure held otherwise >>= f) (ensure held otherwise >>= f') C := by
  cases held with
  | false => exact of_fails (Fails.bind (fails s))
  | true => exact h rfl

/-- A change that leaves the bytes alone reads the same behind any step. -/
theorem thenAlways {change : ParseState → ParseState} (h : ExtendsFrom tail s doomed p p' B)
    (keeps : ∀ t, (change t).cursor = t.cursor)
    (commutes : ∀ t : ParseState, change (t.followed tail) = (change t).followed tail) :
    ExtendsFrom tail s doomed (p.thenAlways change) (p'.thenAlways change) B := by
  intro a u hu
  simp only [Parse.thenAlways] at hu ⊢
  cases hr : p.run s with
  | error fault t =>
    rw [hr] at hu
    cases hu
  | ok b t =>
    rw [hr] at hu
    cases hu
    obtain ⟨stuck, same⟩ := h a t hr
    rw [keeps]
    refine ⟨stuck, same.imp_left fun same => ?_⟩
    rw [same]
    simp only [commutes]

end ExtendsFrom

namespace Extends

variable {A A' : Rests} {p p' : Parse α} {B B' : α → Rests} {C : β → Rests}

theorem weaken (h : Extends tail A p p' B) (fewer : ∀ rest, A' rest → A rest)
    (more : ∀ a rest, B a rest → B' a rest) : Extends tail A' p p' B' :=
  fun s => (h s).weaken (fewer _) more

theorem narrow (h : Extends tail A p p' B) (fewer : ∀ rest, A' rest → A rest) :
    Extends tail A' p p' B :=
  h.weaken fewer fun _ _ => id

theorem widen (h : Extends tail A p p' B) (more : ∀ a rest, B a rest → B' a rest) :
    Extends tail A p p' B' :=
  h.weaken (fun _ => id) more

/-- A step that does the same with every suffix. -/
theorem always (h : Extends tail A p p' fun _ => .never) : Extends tail A p p' B :=
  h.widen fun _ _ none => none.elim

/-- Where a production fails from all that is doomed, it need not be looked at there. -/
theorem of_never (h : Extends tail .never p p' B) (fails : ∀ s, A s.cursor.rest → Fails p s) :
    Extends tail A p p' B := by
  intro s a t hr
  refine ⟨fun d => absurd hr (fails s d a t), ?_⟩
  exact (h s a t hr).2

theorem of_fails (h : ∀ s, Fails p s) : Extends tail A p p' B :=
  fun s => .of_fails (h s)

theorem from_never (h : Extends tail .never p p' B) {s : ParseState} :
    ExtendsFrom tail s False p p' B :=
  h s

theorem throw (fault : Fault) : Extends tail A (Parse.throw fault) p' B :=
  of_fails fun _ => Fails.throw fault

theorem unexpected : Extends tail A Parse.unexpected p' B :=
  of_fails fun _ => Fails.unexpected

theorem pure {a : α} (h : ∀ rest, A rest → B a rest) :
    Extends tail A (Pure.pure a) (Pure.pure a) B :=
  fun _ => .pure (h _)

theorem bind {f f' : α → Parse β} (h : Extends tail A p p' B)
    (hf : ∀ a, Extends tail (B a) (f a) (f' a) C) : Extends tail A (p >>= f) (p' >>= f') C := by
  intro s
  apply (h s).bind
  intro a t _
  exact hf a t

/-- What the first step comes to is not needed behind it. -/
theorem seq {B : Rests} {q q' : Parse β} (h : Extends tail A p p' fun _ => B)
    (next : Extends tail B q q' C) :
    Extends tail A (do let _ ← p; q) (do let _ ← p'; q') C :=
  h.bind fun _ => next

theorem get_bind {f f' : ParseState → Parse β}
    (h : ∀ s, ExtendsFrom tail s (A s.cursor.rest) (f s) (f' (s.followed tail)) C) :
    Extends tail A (get >>= f) (get >>= f') C :=
  h

theorem ite {c : Prop} [Decidable c] {q q' : Parse α} (yes : c → Extends tail A p p' B)
    (no : ¬c → Extends tail A q q' B) :
    Extends tail A (if c then p else q) (if c then p' else q') B :=
  fun s => .ite (fun h => yes h s) fun h => no h s

theorem still (h : Still tail p) : Extends tail A p p fun _ => A := by
  intro s a t hr
  obtain ⟨cursor, same⟩ := h s a t hr
  rw [cursor]
  exact ⟨id, .inl same⟩

theorem discard (h : Extends tail A p p' fun _ => A') :
    Extends tail A (Functor.discard p) (Functor.discard p') fun _ => A' := by
  apply h.bind
  intro _
  exact pure fun _ => id

theorem map {f : α → β} (h : Extends tail A p p' fun _ => A') :
    Extends tail A (f <$> p) (f <$> p') fun _ => A' := by
  apply h.bind
  intro _
  exact pure fun _ => id

/-- A test that ends the parse where it does not hold. -/
theorem ensure_bind {held : Bool} {otherwise : Parse Unit} {f f' : Unit → Parse β}
    (fails : ∀ s, Fails otherwise s) (h : Extends tail A (f ()) (f' ()) C) :
    Extends tail A (ensure held otherwise >>= f) (ensure held otherwise >>= f') C := by
  intro s
  refine .ensure_bind fails ?_
  intro _
  exact h s

theorem thenAlways {change : ParseState → ParseState} (h : Extends tail A p p' B)
    (keeps : ∀ t, (change t).cursor = t.cursor)
    (commutes : ∀ t : ParseState, change (t.followed tail) = (change t).followed tail) :
    Extends tail A (p.thenAlways change) (p'.thenAlways change) B :=
  fun s => (h s).thenAlways keeps commutes

/-- A look at what is known besides the bytes. -/
theorem known_bind {f f' : ParseState → Parse β} (known : ∀ s, f' (s.followed tail) = f' s)
    (h : ∀ s, Extends tail A (f s) (f' s) C) : Extends tail A (get >>= f) (get >>= f') C := by
  apply get_bind
  intro s
  rw [known]
  exact h s s

/-- Reading one level deeper reads the same if the step does. -/
theorem deeper {limit : Nat} (h : Extends tail A p p' B) :
    Extends tail A (p.deeper limit) (p'.deeper limit) B := by
  intro s
  by_cases room : s.level + 1 < limit
  · have inside : ExtendsFrom tail { s with level := s.level + 1 } (A s.cursor.rest)
        (p.thenAlways up) (p'.thenAlways up) B :=
      (h { s with level := s.level + 1 }).thenAlways (fun _ => rfl) fun _ => rfl
    intro a t hr
    rw [run_deeper_of_lt room] at hr
    rw [run_deeper_of_lt (show (s.followed tail).level + 1 < limit from room)]
    exact inside a t hr
  · exact .of_fails fun a t hr => by
      rw [run_deeper_of_le (Nat.le_of_not_lt room)] at hr
      cases hr

/-- More rounds to spend change nothing where a loop ends. -/
theorem repeatUntil {close close' : Parse Bool} {item item' : α → Parse α} {R : Bool → Rests}
    (hclose : Extends tail A close close' R) (done : ∀ a rest, R true rest → B a rest)
    (hitem : ∀ a, Extends tail (R false) (item a) (item' a) fun _ => A)
    (rounds more : List UInt8) (a : α) :
    Extends tail A (Parse.repeatUntil close item rounds a)
      (Parse.repeatUntil close' item' (rounds ++ more) a) B := by
  induction rounds generalizing a with
  | nil => exact throw _
  | cons _ rounds ih =>
    apply hclose.bind
    intro closed
    cases closed with
    | true => exact pure (done a)
    | false =>
      apply (hitem a).bind
      intro b
      exact ih b

/-- A repetition reads the same if each round does. -/
theorem untilHolds {close close' : Parse Bool} {item item' : α → Parse α} {R : Bool → Rests}
    (hclose : Extends tail A close close' R) (done : ∀ a rest, R true rest → B a rest)
    (hitem : ∀ a, Extends tail (R false) (item a) (item' a) fun _ => A) (a : α) :
    Extends tail A (Parse.untilHolds close a item) (Parse.untilHolds close' a item') B := by
  apply get_bind
  intro s
  exact repeatUntil hclose done hitem (0 :: s.cursor.rest) tail a s

end Extends
end Parse
end Unmangle
