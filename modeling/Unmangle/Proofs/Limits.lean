import Unmangle.Grammar.Parse
import Unmangle.Proofs.Grammar.Run
import Unmangle.Spelling.Render

/-!
# Results that only a limit withholds

Where there is room, a step that is granted succeeds and what is said of its value and
of the state behind it is so. Elsewhere a limit may end it, and nothing else can.
-/
namespace Unmangle

/-- A fault that says nothing of the symbol but that it is too much to read. -/
def Fault.IsLimit (fault : Fault) : Prop :=
  fault = .tooMuchRecursion ∨ fault = .tooLong

inductive Granted {σ α : Type} (room : Prop) (Q : α → σ → Prop) : EStateM.Result Fault σ α → Prop
  | given {a s} (holds : Q a s) : Granted room Q (.ok a s)
  | withheld {fault s} (full : ¬room) (limit : fault.IsLimit) : Granted room Q (.error fault s)

namespace Granted

variable {σ α : Type} {room : Prop} {Q : α → σ → Prop} {result : EStateM.Result Fault σ α}

theorem elim (h : Granted room Q result) :
    (∃ a s, result = .ok a s ∧ Q a s) ∨
      ∃ fault s, result = .error fault s ∧ ¬room ∧ fault.IsLimit := by
  cases h with
  | given holds => exact .inl ⟨_, _, rfl, holds⟩
  | withheld full limit => exact .inr ⟨_, _, rfl, full, limit⟩

theorem weaken {Q' : α → σ → Prop} (h : Granted room Q result)
    (weaker : ∀ a s, Q a s → Q' a s) : Granted room Q' result := by
  cases h with
  | given holds => exact .given (weaker _ _ holds)
  | withheld full limit => exact .withheld full limit

end Granted

namespace Parse

variable {α β : Type} {room : Prop}

def Grants (room : Prop) (p : Parse α) (s : ParseState) (Q : α → ParseState → Prop) : Prop :=
  Granted room Q (p.run s)

namespace Grants

variable {p : Parse α} {s t : ParseState} {Q Q' : α → ParseState → Prop}

theorem weaken (h : Grants room p s Q) (weaker : ∀ a t, Q a t → Q' a t) : Grants room p s Q' :=
  Granted.weaken h weaker

/-- A step whose outcome is known. -/
theorem known {a : α} (run : p.run s = .ok a t) (h : Q a t) : Grants room p s Q := by
  unfold Grants
  rw [run]
  exact .given h

theorem pure {a : α} (h : Q a s) : Grants room (Pure.pure a) s Q :=
  known rfl h

/-- A step grants from where the step before it left off. -/
theorem bind {f : α → Parse β} {R : β → ParseState → Prop}
    (h : Grants room p s fun a t => Grants room (f a) t R) : Grants room (p >>= f) s R := by
  unfold Grants
  obtain ⟨a, t, run, next⟩ | ⟨fault, t, run, full, limit⟩ := h.elim
  · rw [run_bind_ok f run]
    exact next
  · rw [run_bind_error f run]
    exact .withheld full limit

/-- What follows a step whose outcome is known. -/
theorem after {f : α → Parse β} {R : β → ParseState → Prop} {a : α} (run : p.run s = .ok a t)
    (h : Grants room (f a) t R) : Grants room (p >>= f) s R :=
  bind (known run h)

/-- A step of two parts may be taken as one. -/
theorem assoc {γ : Type} {f : α → Parse β} {g : β → Parse γ} {R : γ → ParseState → Prop}
    (h : Grants room ((p >>= f) >>= g) s R) : Grants room (p >>= fun a => f a >>= g) s R := by
  unfold Grants
  rw [← run_bind_assoc f g]
  exact h

theorem thenAlways {change : ParseState → ParseState}
    (h : Grants room p s fun a t => Q a (change t)) : Grants room (p.thenAlways change) s Q := by
  unfold Grants
  simp only [Parse.thenAlways]
  obtain ⟨a, t, run, holds⟩ | ⟨fault, t, run, full, limit⟩ := h.elim
  · simp only [run]
    exact .given holds
  · simp only [run]
    exact .withheld full limit

/-- A rule one level deeper. There is always a level to spend below the limit. -/
theorem rule {limit levels : Nat} {rule : Rule} {Q : NodeId → ParseState → Prop}
    (spent : s.level + levels = limit) (fits : room → s.level + 1 < limit)
    (h : ∀ levels, s.level + 1 + levels = limit →
      Grants room (rule.body (Rule.parse limit levels)) { s with level := s.level + 1 }
        fun id t => Q id (up t)) :
    Grants room (Rule.parse limit levels rule) s Q := by
  cases levels with
  | zero =>
    refine Granted.withheld (fun enough => ?_) (.inl rfl)
    have := fits enough
    omega
  | succ levels =>
    show Granted room Q (((rule.body (Rule.parse limit levels)).deeper limit).run s)
    by_cases below : s.level + 1 < limit
    · rw [run_deeper_of_lt below]
      exact thenAlways (h levels (by omega))
    · rw [run_deeper_of_le (Nat.le_of_not_lt below)]
      exact .withheld (fun enough => below (fits enough)) (.inl rfl)

end Grants
end Parse

namespace Print

variable {α β : Type} {room : Prop}

def Grants (room : Prop) (p : Print α) (canvas : Canvas) (Q : α → Canvas → Prop) : Prop :=
  Granted room Q (p.run canvas)

namespace Grants

variable {p : Print α} {canvas after : Canvas} {Q Q' : α → Canvas → Prop}

theorem weaken (h : Grants room p canvas Q) (weaker : ∀ a c, Q a c → Q' a c) :
    Grants room p canvas Q' :=
  Granted.weaken h weaker

theorem known {a : α} (run : p.run canvas = .ok a after) (h : Q a after) :
    Grants room p canvas Q := by
  unfold Grants
  rw [run]
  exact .given h

theorem pure {a : α} (h : Q a canvas) : Grants room (Pure.pure a) canvas Q :=
  known rfl h

/-- A step grants from the canvas that the step before it left. -/
theorem bind {f : α → Print β} {R : β → Canvas → Prop}
    (h : Grants room p canvas fun a c => Grants room (f a) c R) :
    Grants room (p >>= f) canvas R := by
  unfold Grants
  obtain ⟨a, c, run, next⟩ | ⟨fault, c, run, full, limit⟩ := h.elim
  · simp only [Bind.bind, run]
    exact next
  · simp only [Bind.bind, run]
    exact .withheld full limit

/-- A half one level deeper. What was written must fit as well. -/
theorem deeper {limits : SpellingLimits} {p : Print Unit} {Q : Unit → Canvas → Prop}
    (fits : room → canvas.out.size ≤ limits.maxLength ∧ canvas.depth + 1 < limits.maxDepth)
    (h : Grants room p { canvas with depth := canvas.depth + 1 }
      fun a c => Q a { c with depth := c.depth - 1 }) :
    Grants room (p.deeper limits) canvas Q := by
  refine bind (known rfl (bind (known rfl ?_)))
  by_cases long : limits.maxLength < canvas.out.size
  · rw [if_pos long]
    exact Granted.withheld (fun enough => absurd (fits enough).1 (Nat.not_le.mpr long)) (.inr rfl)
  · rw [if_neg long]
    by_cases deep : limits.maxDepth ≤ canvas.depth + 1
    · rw [if_pos deep]
      exact Granted.withheld (fun enough => absurd (fits enough).2 (Nat.not_lt.mpr deep)) (.inl rfl)
    · rw [if_neg deep]
      unfold Grants
      simp only [nested]
      obtain ⟨a, c, run, holds⟩ | ⟨fault, c, run, full, limit⟩ := h.elim
      · simp only [run]
        exact .given holds
      · simp only [run]
        exact .withheld full limit

end Grants
end Print
end Unmangle
