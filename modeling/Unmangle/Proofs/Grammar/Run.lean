import Unmangle.Grammar.State

/-!
# Running a parse

What a step makes of a state, and what happens on the way, from what its parts do.
-/
namespace Unmangle.Parse

variable {α β : Type} {p : Parse α} {s t : ParseState}

@[simp]
theorem run_pure (a : α) : (Pure.pure a : Parse α).run s = .ok a s := rfl

@[simp]
theorem happens_pure (a : α) (e : Event) : ¬(Pure.pure a : Parse α).happens s e := id

@[simp]
theorem run_throw (fault : Fault) : (throw fault : Parse α).run s = .error fault s := rfl

@[simp]
theorem happens_throw (fault : Fault) (e : Event) : ¬(throw fault : Parse α).happens s e := id

@[simp]
theorem run_get : (get : Parse ParseState).run s = .ok s s := rfl

@[simp]
theorem happens_get (e : Event) : ¬(get : Parse ParseState).happens s e := id

@[simp]
theorem run_modify (f : ParseState → ParseState) :
    (modify f : Parse Unit).run s = .ok () (f s) := rfl

@[simp]
theorem happens_modify (f : ParseState → ParseState) (e : Event) :
    (modify f : Parse Unit).happens s e ↔ e = .visits (f s) := Iff.rfl

@[simp]
theorem ensure_true (otherwise : Parse Unit) : ensure true otherwise = Pure.pure () := rfl

@[simp]
theorem ensure_false (otherwise : Parse Unit) : ensure false otherwise = otherwise := rfl

theorem run_bind_ok (f : α → Parse β) {a : α} (h : p.run s = .ok a t) :
    (p >>= f).run s = (f a).run t := by
  simp only [Bind.bind, h]

theorem run_bind_error (f : α → Parse β) {fault : Fault} (h : p.run s = .error fault t) :
    (p >>= f).run s = .error fault t := by
  simp only [Bind.bind, h]

/-- A step of two parts may be taken as one. -/
theorem run_bind_assoc {γ : Type} (f : α → Parse β) (g : β → Parse γ) :
    ((p >>= f) >>= g).run s = (p >>= fun a => f a >>= g).run s := by
  simp only [Bind.bind]
  cases p.run s <;> rfl

/-- Behind a success there happens what happens in either step. -/
theorem happens_bind_ok (f : α → Parse β) {a : α} (h : p.run s = .ok a t) (e : Event) :
    (p >>= f).happens s e ↔ p.happens s e ∨ (f a).happens t e := by
  simp only [Bind.bind, h, EStateM.Result.ok.injEq]
  constructor
  · rintro (he | ⟨_, _, ⟨rfl, rfl⟩, he⟩)
    · exact .inl he
    · exact .inr he
  · rintro (he | he)
    · exact .inl he
    · exact .inr ⟨a, t, ⟨rfl, rfl⟩, he⟩

theorem happens_bind_error (f : α → Parse β) {fault : Fault} (h : p.run s = .error fault t)
    (e : Event) : (p >>= f).happens s e ↔ p.happens s e := by
  simp [Bind.bind, h]

abbrev up (after : ParseState) : ParseState :=
  { after with level := after.level - 1 }

variable {limit : Nat}

theorem run_enter_of_lt (room : s.level + 1 < limit) :
    (ensure (decide (s.level + 1 < limit)) (throw .tooMuchRecursion)).run s = .ok () s := by
  simp only [room, decide_true, ensure_true, run_pure]

theorem run_enter_of_le (full : limit ≤ s.level + 1) :
    (ensure (decide (s.level + 1 < limit)) (throw .tooMuchRecursion)).run s =
      .error .tooMuchRecursion s := by
  simp only [Nat.not_lt.mpr full, decide_false, ensure_false, run_throw]

theorem run_deeper_of_lt (room : s.level + 1 < limit) :
    (p.deeper limit).run s = (p.thenAlways up).run { s with level := s.level + 1 } := by
  unfold deeper
  rw [run_bind_ok _ run_get, run_bind_ok _ (run_enter_of_lt room), run_bind_ok _ (run_modify _)]

theorem run_deeper_ok (room : s.level + 1 < limit) {a : α}
    (h : p.run { s with level := s.level + 1 } = .ok a t) :
    (p.deeper limit).run s = .ok a (up t) := by
  rw [run_deeper_of_lt room]
  simp only [thenAlways, h]

theorem run_deeper_of_le (full : limit ≤ s.level + 1) :
    (p.deeper limit).run s = .error .tooMuchRecursion s := by
  unfold deeper
  rw [run_bind_ok _ run_get, run_bind_error _ (run_enter_of_le full)]

theorem happens_deeper_of_lt (room : s.level + 1 < limit) (e : Event) :
    (p.deeper limit).happens s e ↔ e = .visits { s with level := s.level + 1 } ∨
      (p.thenAlways up).happens { s with level := s.level + 1 } e := by
  unfold deeper
  rw [happens_bind_ok _ run_get, happens_bind_ok _ (run_enter_of_lt room),
    happens_bind_ok _ (run_modify _)]
  simp [room]

theorem happens_deeper_of_le (full : limit ≤ s.level + 1) (e : Event) :
    ¬(p.deeper limit).happens s e := by
  unfold deeper
  rw [happens_bind_ok _ run_get, happens_bind_error _ (run_enter_of_le full)]
  simp [Nat.not_lt.mpr full]

end Unmangle.Parse
