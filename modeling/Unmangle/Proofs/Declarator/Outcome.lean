import Unmangle.Proofs.Limits

/-!
# Outcomes with a fault that is due

Where no fault is due a step succeeds, unless a limit withholds its result. Where one is due it
comes up, unless a limit comes first. The first fault that is due on the way is that of all.
-/
namespace Unmangle.Parse

variable {α β : Type} {room : Prop} {due due' : Option Fault}

inductive Outcome (room : Prop) (due : Option Fault) (Q : α → ParseState → Prop) :
    EStateM.Result Fault ParseState α → Prop
  | given {a s} (none : due = none) (holds : Q a s) : Outcome room due Q (.ok a s)
  | refused {fault s} (some : due = some fault) : Outcome room due Q (.error fault s)
  | withheld {fault s} (full : ¬room) (limit : fault.IsLimit) :
      Outcome room due Q (.error fault s)

def Meets (room : Prop) (due : Option Fault) (p : Parse α) (s : ParseState)
    (Q : α → ParseState → Prop) : Prop :=
  Outcome room due Q (p.run s)

namespace Meets

variable {p : Parse α} {s t : ParseState} {Q Q' : α → ParseState → Prop}

theorem weaken (h : Meets room due p s Q) (weaker : ∀ a t, Q a t → Q' a t) :
    Meets room due p s Q' := by
  unfold Meets at h ⊢
  generalize p.run s = result at h ⊢
  cases h with
  | given none holds => exact .given none (weaker _ _ holds)
  | refused some => exact .refused some
  | withheld full limit => exact .withheld full limit

/-- Where a fault is due, it comes up unless a limit comes first. -/
theorem refused {fault : Fault} (h : Meets room (some fault) p s Q) :
    ∃ fault' t, p.run s = .error fault' t ∧ (fault' = fault ∨ fault'.IsLimit) := by
  unfold Meets at h
  generalize p.run s = result at h
  cases h with
  | given none => cases none
  | @refused fault' t some =>
    cases some
    exact ⟨_, t, rfl, .inl rfl⟩
  | @withheld fault' t full limit => exact ⟨fault', t, rfl, .inr limit⟩

/-- Where nothing is due, only a limit withholds a result. -/
theorem grants (h : Meets room none p s Q) : Grants room p s Q := by
  unfold Meets at h
  unfold Grants
  generalize p.run s = result at h ⊢
  cases h with
  | given none holds => exact .given holds
  | refused some => cases some
  | withheld full limit => exact .withheld full limit

/-- A step whose outcome is known. -/
theorem known {a : α} (run : p.run s = .ok a t) (h : Q a t) : Meets room none p s Q := by
  unfold Meets
  rw [run]
  exact .given rfl h

theorem pure {a : α} (h : Q a s) : Meets room none (Pure.pure a) s Q :=
  known rfl h

/-- A step that fails with the fault that is due. -/
theorem fails {fault : Fault} (run : p.run s = .error fault t) :
    Meets room (some fault) p s Q := by
  unfold Meets
  rw [run]
  exact .refused rfl

/-- The first fault that is due of two steps in a row. -/
theorem bind {f : α → Parse β} {R : β → ParseState → Prop}
    (h : Meets room due p s fun a t => Meets room due' (f a) t R) :
    Meets room (due.or due') (p >>= f) s R := by
  unfold Meets at h ⊢
  cases result : p.run s with
  | ok a t =>
    rw [result] at h
    rw [run_bind_ok f result]
    cases h with
    | given none holds =>
      rw [none]
      exact holds
  | error fault t =>
    rw [result] at h
    rw [run_bind_error f result]
    cases h with
    | refused some =>
      rw [some]
      exact .refused rfl
    | withheld full limit => exact .withheld full limit

/-- What follows a step in which nothing is due. -/
theorem andThen {f : α → Parse β} {R : β → ParseState → Prop}
    (h : Meets room none p s fun a t => Meets room due (f a) t R) : Meets room due (p >>= f) s R :=
  bind h

/-- What follows a step whose outcome is known. -/
theorem after {f : α → Parse β} {R : β → ParseState → Prop} {a : α} (run : p.run s = .ok a t)
    (h : Meets room due (f a) t R) : Meets room due (p >>= f) s R :=
  andThen (known run h)

/-- What follows only passes the result on. -/
theorem before {f : α → Parse β} {R : β → ParseState → Prop}
    (h : Meets room due p s fun a t => Meets room none (f a) t R) :
    Meets room due (p >>= f) s R := by
  have both := bind h
  rwa [Option.or_none] at both

/-- A step of two parts may be taken as one. -/
theorem assoc {γ : Type} {f : α → Parse β} {g : β → Parse γ} {R : γ → ParseState → Prop}
    (h : Meets room due ((p >>= f) >>= g) s R) : Meets room due (p >>= fun a => f a >>= g) s R := by
  unfold Meets
  rw [← run_bind_assoc f g]
  exact h

theorem thenAlways {change : ParseState → ParseState}
    (h : Meets room due p s fun a t => Q a (change t)) :
    Meets room due (p.thenAlways change) s Q := by
  unfold Meets at h ⊢
  simp only [Parse.thenAlways]
  cases result : p.run s with
  | ok a t =>
    rw [result] at h
    cases h with
    | given none holds => exact .given none holds
  | error fault t =>
    rw [result] at h
    cases h with
    | refused some => exact .refused some
    | withheld full limit => exact .withheld full limit

/-- A rule one level deeper, which is known to be below the limit if it is read. -/
theorem rule {limit levels : Nat} {rule : Rule} {Q : NodeId → ParseState → Prop}
    (spent : s.level + levels = limit) (fits : room → s.level + 1 < limit)
    (h : ∀ levels, s.level + 1 + levels = limit → s.level + 1 < limit →
      Meets room due (rule.body (Rule.parse limit levels)) { s with level := s.level + 1 }
        fun id t => Q id (up t)) :
    Meets room due (Rule.parse limit levels rule) s Q := by
  cases levels with
  | zero =>
    refine Outcome.withheld (fun enough => ?_) (.inl rfl)
    have := fits enough
    omega
  | succ levels =>
    show Outcome room due Q (((rule.body (Rule.parse limit levels)).deeper limit).run s)
    by_cases below : s.level + 1 < limit
    · rw [run_deeper_of_lt below]
      exact thenAlways (h levels (by omega) below)
    · rw [run_deeper_of_le (Nat.le_of_not_lt below)]
      exact .withheld (fun enough => below (fits enough)) (.inl rfl)

section Rounds

variable {ι : Type} {close : Parse Bool} {round : β → Parse β} {Q : β → ParseState → Prop}

def dueAmong (due : ι → Option Fault) : List ι → Option Fault
  | [] => none
  | item :: items => (due item).or (dueAmong due items)

/-- One round where the end does not come next, and those behind it. -/
theorem oneRound {byte : UInt8} {bytes : List UInt8} {acc : β} (opens : close.run s = .ok false s)
    (read : Meets room due (round acc) s fun acc t =>
      Meets room due' (repeatUntil close round bytes acc) t Q) :
    Meets room (due.or due') (repeatUntil close round (byte :: bytes) acc) s Q := by
  refine after opens ?_
  rw [if_neg Bool.false_ne_true]
  exact bind read

/-- What follows a round in which nothing is due. -/
theorem nextRound {byte : UInt8} {bytes : List UInt8} {acc : β} (opens : close.run s = .ok false s)
    (read : Meets room none (round acc) s fun acc t =>
      Meets room due (repeatUntil close round bytes acc) t Q) :
    Meets room due (repeatUntil close round (byte :: bytes) acc) s Q :=
  oneRound opens read

/-- Each round reads one of the items that are left, and the end comes behind the last one. -/
theorem rounds (due : ι → Option Fault) (Left : List ι → β → ParseState → Prop)
    (closes : ∀ acc t, Left [] acc t →
      Meets room none close t fun closed u => closed = true ∧ Q acc u)
    (opens : ∀ item items acc t, Left (item :: items) acc t → close.run t = .ok false t)
    (reads : ∀ item items acc t, Left (item :: items) acc t →
      Meets room (due item) (round acc) t (Left items))
    {items : List ι} {bytes : List UInt8} {acc : β} (enough : items.length < bytes.length)
    (h : Left items acc s) : Meets room (dueAmong due items) (repeatUntil close round bytes acc) s Q := by
  induction items generalizing bytes acc s with
  | nil =>
    cases bytes with
    | nil => cases enough
    | cons byte bytes =>
      refine andThen ((closes acc s h).weaken fun closed t ends => ?_)
      obtain ⟨rfl, holds⟩ := ends
      exact pure holds
  | cons item items ih =>
    cases bytes with
    | nil => cases enough
    | cons byte bytes =>
      refine Meets.oneRound (opens item items acc s h)
        ((reads item items acc s h).weaken fun acc t left => ?_)
      exact ih (Nat.lt_of_succ_lt_succ enough) left

end Rounds

end Meets
end Unmangle.Parse
