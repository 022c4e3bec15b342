import Unmangle.Engine
import Unmangle.Proofs.Comparison.Symbol
import Unmangle.Proofs.Substitution.NestedName

/-!
# When the list only grows

What was listed keeps its place as long as no bare nested name is read. A bare nested
name takes off the list what was listed before it.
-/
namespace Unmangle

namespace Parse.Yields

variable {symbol : ByteArray} {s : ParseState} {out : Event → Prop} {limit levels : Nat}

theorem ran {α : Type} {p : Parse α} {Q : α → ParseState → Prop} (h : Yields out p s Q) :
    Yields out p s fun a t => p.run s = .ok a t ∧ Q a t :=
  fun kept a t hr => ⟨hr, h kept a t hr⟩

theorem delist {Q : Unit → ParseState → Prop}
    (h : ∀ t last, s.listed = t.listed ++ [last] → Q () t) : Yields out Parse.delist s Q := by
  refine bind (get (bind (orFault fun table htable => modified ?_)))
  rw [Substitutions.pop?] at htable
  split at htable
  · rename_i last hlast
    cases htable
    rw [← Array.getLast?_toList] at hlast
    obtain ⟨rest, hrest⟩ := List.getLast?_eq_some_iff.mp hlast
    refine h _ last ?_
    simp [ParseState.listed, hrest]
  · cases htable

/-- What a nested name took off the list: its complete name, or what was listed before it
when it is bare. -/
def Delisted (limit levels : Nat) (tracked : Bool) (s : ParseState) (id : NodeId)
    (t : ParseState) : Prop :=
  s.cursor.isBare = true ∧ (∃ last, s.listed = t.listed ++ [last]) ∨
    s.cursor.isBare = false ∧ s.listed <+: t.listed ∧ ∃ complete,
      (Parse.nestedParts (Rule.parse limit levels) tracked).run s = .ok id complete ∧
        complete.listed = t.listed ++ [id]

/-- Behind a nested name the last component is taken off the list. -/
theorem nestedName
    (reads : (growth symbol).Reads (Rule.parse limit levels) (Rule.parse limit levels))
    (tracked : Bool) :
    Yields (growth symbol).lost (Parse.nestedName (Rule.parse limit levels) tracked) s
      (Delisted limit levels tracked s) := by
  refine bind ((nestedParts reads tracked).ran.weaken fun id complete h => ?_)
  refine bind (delist fun t last hlast => pure ?_)
  obtain ⟨hr, ⟨bare, same⟩ | ⟨bare, _, between, hid, list⟩⟩ := h
  · exact .inl ⟨bare, last, same ▸ hlast⟩
  · cases hid
    obtain ⟨hbetween, hlist⟩ := List.append_inj' (list.symm.trans hlast) rfl
    cases hlist
    exact .inr ⟨bare, ⟨between, hbetween⟩, complete, hr, hlast⟩

end Parse.Yields

namespace growth

variable {symbol : ByteArray} {w : List NodeId} {s t : ParseState} {limit levels : Nat}

theorem visits_of_orFault {α : Type} {value : Option α} {fault : Fault} {e : Event}
    (h : (Parse.orFault value fault).happens s e) : ∃ t, e = .visits t := by
  cases value <;> exact h.elim

theorem visits_of_delist {e : Event} (h : Parse.delist.happens s e) : ∃ t, e = .visits t := by
  rcases h with h | ⟨_, _, -, h | ⟨_, _, -, h⟩⟩
  · exact h.elim
  · exact visits_of_orFault h
  · exact ⟨_, h⟩

theorem run_delist (s : ParseState) :
    Parse.delist.run s = match s.work.substitutions.pop? with
      | some table => .ok () { s with work := { s.work with substitutions := table } }
      | none => .error .unexpectedText s := by
  unfold Parse.delist
  rw [Parse.run_bind_ok _ Parse.run_get]
  cases s.work.substitutions.pop? with
  | none => rfl
  | some table => rfl

/-- Where a nested name turns out not to be bare, it keeps the list like other rules. -/
theorem nestedName_from
    (reads : (growth symbol).Reads (Rule.parse limit levels) (Rule.parse limit levels))
    (tracked : Bool) (listed : w <+: s.listed)
    (fine : ∀ id t, (Parse.nestedName (Rule.parse limit levels) tracked).run s = .ok id t →
      s.listed <+: t.listed) :
    (growth symbol).FollowsFrom s s w (Parse.nestedName (Rule.parse limit levels) tracked)
      (Parse.nestedName (Rule.parse limit levels) tracked) (growth symbol).name := by
  intro kept
  obtain ⟨events, outcome⟩ := Comparison.Follows.nestedParts growth.lawful reads tracked s s
    (state_self listed) fun e he => kept e (.inl he)
  have visited (t : ParseState) : (growth symbol).event (.visits t) := ⟨trivial, id, trivial⟩
  refine ⟨?_, ?_⟩
  · rintro e (he | ⟨id, complete, -, he | ⟨_, _, -, he⟩⟩)
    · exact events e he
    · obtain ⟨t, rfl⟩ := visits_of_delist he
      exact visited t
    · exact he.elim
  · unfold Parse.nestedName at fine ⊢
    obtain ⟨v, id, _, complete, _, hr, -, rfl, state, level, rfl⟩ |
      ⟨v, fault, t, _, hr, -, rfl, state, level⟩ | ⟨_, _, -, gone⟩ := outcome.elim
    · rw [Parse.run_bind_ok _ hr] at fine ⊢
      cases htable : complete.work.substitutions.pop? with
      | none =>
        have hd : Parse.delist.run complete = .error .unexpectedText complete := by
          rw [run_delist, htable]
        rw [Parse.run_bind_error _ hd]
        exact .error rfl (state_self (state_iff.mp state).2) level
      | some table =>
        have hd : Parse.delist.run complete = .ok ()
            { complete with work := { complete.work with substitutions := table } } := by
          rw [run_delist, htable]
        rw [Parse.run_bind_ok _ hd] at fine ⊢
        exact .ok rfl (state_self (listed.trans (fine id _ rfl))) level rfl
    · rw [Parse.run_bind_error _ hr]
      obtain ⟨rfl, listed⟩ := state_iff.mp state
      exact .error rfl (state_self listed) level
    · exact gone.elim

/-- A nested name that succeeds without being lost is not bare. -/
theorem yields_event
    (reads : (growth symbol).Reads (Rule.parse limit levels) (Rule.parse limit levels))
    (tracked : Bool) :
    Parse.Yields (growth symbol).lost (Rule.parse limit (levels + 1) (.nestedName tracked)) s
      fun id t => (growth symbol).event (.reads (.nestedName tracked) s id t) := by
  refine .reading (.deeper ((Parse.Yields.nestedName reads tracked).weaken ?_))
  rintro id t (⟨bare, last, list⟩ | ⟨unbare, keeps, complete, hr, list⟩) allowed
  · refine absurd (.inr ⟨bare, fun keeps => ?_⟩) allowed
    have longer := List.IsPrefix.length_le keeps
    have list : s.listed.length = (t.listed ++ [last]).length := congrArg List.length list
    rw [List.length_append, List.length_singleton] at list
    exact absurd (list ▸ longer) (Nat.not_succ_le_self _)
  · exact ⟨keeps, Bool.eq_false_iff.mp unbare, limit, levels, complete, hr, list⟩

/-- A nested name keeps what was listed before it, if it is not bare. -/
theorem nestedNames (symbol : ByteArray) : (growth symbol).NestedNames := by
  intro limit limit' levels levels' limits more reads tracked w s s' hs kept
  obtain rfl := limits.eq_of_none id
  obtain rfl := more.eq_of_none id
  obtain ⟨rfl, listed⟩ := state_iff.mp hs
  have own := yields_event reads tracked kept
  have from_inside := Comparison.Follows.deeperFrom growth.lawful hs limits fun room =>
    nestedName_from reads tracked listed fun id t hr => (own id _ (Parse.run_deeper_ok room hr)).1
  obtain ⟨events, outcome⟩ := from_inside fun e he => kept e (.inl he)
  refine ⟨?_, outcome⟩
  rintro e (he | ⟨id, t, hr, rfl⟩)
  · exact events e he
  · exact own id t hr

variable (limit levels : Nat) (generation : UInt32) (symbol : ByteArray)

/-- Without an event that is lost, the list keeps what it has, and no name is bare. -/
theorem events
    (unlost : ∀ e, (Rule.parse limit levels .symbol).happens (.start generation symbol) e →
      ¬(e.Bare ∧ ¬e.Keeps)) :
    ∀ e, (Rule.parse limit levels .symbol).happens (.start generation symbol) e →
      e.Keeps ∧ ¬e.Bare ∧ e.TakesOwn := by
  have reads := growth.lawful.reads_parse (nestedNames symbol) (.refl limit) (.refl levels)
  refine (reads .symbol [] _ _ (state_self (List.nil_prefix)) ?_).1
  rintro e he (unsound | shrinks)
  · exact unsound (Sides.event_sound he)
  · exact unlost e he shrinks

end growth

namespace Parse

variable {α β : Type} {p : Parse α} {s : ParseState}

def value? : EStateM.Result Fault ParseState α → Option α
  | .ok a _ => some a
  | .error _ _ => none

/-- On the way of the step a rule is read that takes off the list what was there. -/
def Shrinks (p : Parse α) (s : ParseState) : Prop :=
  ∃ e, p.happens s e ∧ ¬e.Keeps

namespace Shrinks

theorem inside {f : α → Parse β} : p.Shrinks s → (p >>= f).Shrinks s := by
  rintro ⟨e, he, shrinks⟩
  exact ⟨e, .inl he, shrinks⟩

theorem behind {f : α → Parse β} (a : α) (ran : value? (p.run s) = some a) :
    (f a).Shrinks (final (p.run s)) → (p >>= f).Shrinks s := by
  rintro ⟨e, he, shrinks⟩
  refine ⟨e, ?_, shrinks⟩
  cases hr : p.run s with
  | ok b t =>
    rw [hr] at ran he
    cases ran
    exact .inr ⟨a, t, hr, he⟩
  | error fault t =>
    rw [hr] at ran
    cases ran

theorem below {limit levels : Nat} {rule : Rule} (room : s.level + 1 < limit) :
    (rule.body (Rule.parse limit levels)).Shrinks { s with level := s.level + 1 } →
      (Rule.parse limit (levels + 1) rule).Shrinks s := by
  rintro ⟨e, he, shrinks⟩
  exact ⟨e, .inl ((happens_deeper_of_lt room e).mpr (.inr (.inl he))), shrinks⟩

/-- A rule that ends with fewer components listed has shrunk the list. -/
theorem here {limit levels : Nat} {rule : Rule}
    (ran : (value? ((Rule.parse limit (levels + 1) rule).run s)).isSome)
    (shrinks : ¬s.listed <+: (final ((Rule.parse limit (levels + 1) rule).run s)).listed) :
    (Rule.parse limit (levels + 1) rule).Shrinks s := by
  cases hr : (Rule.parse limit (levels + 1) rule).run s with
  | ok a t =>
    rw [hr] at shrinks
    exact ⟨_, .inr ⟨a, t, hr, rfl⟩, shrinks⟩
  | error fault t =>
    rw [hr] at ran
    cases ran

theorem got {f : ParseState → Parse β} (h : (f s).Shrinks s) :
    (MonadState.get >>= f).Shrinks s := by
  obtain ⟨e, he, shrinks⟩ := h
  exact ⟨e, .inr ⟨s, s, rfl, he⟩, shrinks⟩

theorem always {change : ParseState → ParseState} (h : p.Shrinks s) :
    (p.thenAlways change).Shrinks s := by
  obtain ⟨e, he, shrinks⟩ := h
  exact ⟨e, .inl he, shrinks⟩


theorem round {close : Parse Bool} {item : β → Parse β} {byte : UInt8} {rounds : List UInt8}
    {start : β} (goesOn : value? (close.run s) = some false)
    (h : (item start).Shrinks (final (close.run s))) :
    (repeatUntil close item (byte :: rounds) start).Shrinks s :=
  behind false goesOn (inside h)

end Shrinks

end Parse

/-- The list of components keeps what it has, in whatever is read, just when no bare nested
name is read. Then every nested name takes off its own complete name. -/
theorem keeps_iff_none_bare (limit : Nat) (generation : UInt32) (symbol : ByteArray) :
    let happens := (Rule.parse limit limit .symbol).happens (.start generation symbol)
    ((∀ e, happens e → e.Keeps) ↔ ∀ e, happens e → ¬e.Bare) ∧
      ((∀ e, happens e → ¬e.Bare) → ∀ e, happens e → e.TakesOwn) := by
  intro happens
  have unbare (none : ∀ e, happens e → ¬e.Bare) := growth.events limit limit generation symbol
    fun e he shrinks => none e he shrinks.1
  refine ⟨⟨fun keeps e he => ?_, fun none e he => (unbare none e he).1⟩,
    fun none e he => (unbare none e he).2.2⟩
  exact (growth.events limit limit generation symbol
    (fun e he shrinks => shrinks.2 (keeps e he)) e he).2.1

/-- The second parameter takes the first off the list, so the third is not what was listed
first in its place. -/
theorem bare_std_shrinks :
    (Rule.parse 128 128 .symbol).Shrinks (.start 0 "_Z1fP1ANStES0_".toUTF8) ∧
      (Engine.demangle {} "_Z1fP1ANStES0_").1.toOption = some "f(A*, std, std)" := by
  refine ⟨?_, by decide +kernel⟩
  refine .below (by decide) ?_
  refine .behind true (by decide +kernel) ?_
  refine .inside ?_
  refine .behind '1' (by decide +kernel) ?_
  refine .inside (.below (by decide +kernel) ?_)
  -- the encoding
  refine .got (.behind () (by decide +kernel) (.always ?_))
  refine .behind '1' (by decide +kernel) ?_
  -- a name and parameters
  refine .got (.behind ⟨0, 0⟩ (by decide +kernel) ?_)
  refine .behind () (by decide +kernel) ?_
  refine .behind false (by decide +kernel) ?_
  refine .got (.behind none (by decide +kernel) ?_)
  refine .behind false (by decide +kernel) (.inside ?_)
  refine .behind ⟨2, 0⟩ (by decide +kernel) ?_
  refine .got ?_
  refine .round (by decide +kernel) (.inside ?_)
  -- the second
  refine .below (by decide +kernel) ?_
  refine .behind ('N', 'S') (by decide +kernel) ?_
  refine .inside (.below (by decide +kernel) ?_)
  refine .behind none (by decide +kernel) ?_
  refine .inside (.below (by decide +kernel) ?_)
  refine .behind ('N', 'S') (by decide +kernel) ?_
  exact .here (by decide +kernel) (by decide +kernel)

end Unmangle
