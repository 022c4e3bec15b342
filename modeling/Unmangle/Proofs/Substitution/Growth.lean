import Unmangle.Proofs.Comparison.Alone
import Unmangle.Proofs.Comparison.Rule
import Unmangle.Proofs.Safety.Sound
import Unmangle.Proofs.Substitution.Bare

/-!
# What is listed stays listed

A parse is compared with itself, and what is kept alike is the beginning of the list of
components. Only at the end of a nested name is there something to prove.
-/
namespace Unmangle

/-- The components listed for substitution, oldest first. -/
def ParseState.listed (state : ParseState) : List NodeId :=
  state.work.substitutions.entries.toList

namespace Event

/-- What was listed before a rule was read is listed behind it, in the same places. -/
def Keeps : Event → Prop
  | .reads _ before _ after => before.listed <+: after.listed
  | _ => True

def Bare : Event → Prop
  | .reads (.nestedName _) before _ _ => before.cursor.isBare
  | _ => False

/-- What a nested name takes off the list is the component that was listed last for it,
which is the complete name. -/
def TakesOwn : Event → Prop
  | .reads (.nestedName tracked) before id after =>
    ∃ limit levels complete,
      (Parse.nestedParts (Rule.parse limit levels) tracked).run
        { before with level := before.level + 1 } = .ok id complete ∧
      complete.listed = after.listed ++ [id]
  | _ => True

end Event

/-- Only what was listed before is looked for in the list. -/
@[reducible]
def listedBefore : Preorder (List NodeId) where
  le := Eq
  le_refl _ := rfl
  le_trans _ _ _ := Eq.trans

/-- A parse that keeps the beginning of its list. -/
def growth (symbol : ByteArray) : Comparison :=
  @Comparison.alone (List NodeId) listedBefore (fun w u => w <+: u.entries.toList)
    (fun e => e.Keeps ∧ ¬e.Bare ∧ e.TakesOwn) (fun e => ¬e.Sound symbol ∨ e.Bare ∧ ¬e.Keeps)
    fun _ => False

namespace growth

variable {symbol : ByteArray} {w v : List NodeId} {s s' : ParseState}

theorem state_self (h : w <+: s.listed) : (growth symbol).State w s s :=
  @Comparison.alone.state_self _ listedBefore _ _ _ _ _ _ h

theorem state_iff : (growth symbol).State w s s' ↔ s = s' ∧ w <+: s.listed :=
  @Comparison.alone.state_iff _ listedBefore _ _ _ _ _ _ _

/-- Every rule but a nested name may be read. -/
theorem mayRead {rule : Rule} (other : ∀ tracked, rule ≠ .nestedName tracked) :
    (growth symbol).MayRead rule := by
  rintro s s' a b t t' ⟨w, before⟩ after
  obtain ⟨rfl, -⟩ := state_iff.mp before
  obtain ⟨v, rfl, state, -⟩ := after s.listed (state_self List.prefix_rfl)
  refine ⟨(state_iff.mp state).2, ?_, ?_⟩
  · cases rule with
    | nestedName tracked => exact absurd rfl (other tracked)
    | _ => exact id
  · cases rule with
    | nestedName tracked => exact absurd rfl (other tracked)
    | _ => trivial

/-- That the list only grows is a lawful comparison of a parse with itself. -/
theorem lawful : (growth symbol).Lawful := by
  refine @Comparison.alone.lawful _ listedBefore _ _ _ _ ?_ ?_ ?_ ?_ mayRead fun gone => gone.elim
  · rintro w _ u rfl kept
    exact kept
  · intro w u id listed
    refine listed.trans ?_
    simp [Substitutions.insert]
  · exact fun _ => ⟨trivial, id, trivial⟩
  · exact fun _ _ => ⟨trivial, id, trivial⟩

end growth
end Unmangle
