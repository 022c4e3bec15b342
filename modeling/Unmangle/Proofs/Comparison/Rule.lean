import Unmangle.Proofs.Comparison.Encoding
import Unmangle.Proofs.Comparison.Expression
import Unmangle.Proofs.Comparison.Literal
import Unmangle.Proofs.Comparison.Type

/-!
# Rules side by side

The nesting limit ties the productions together, so what holds of each production given
all rules holds of every rule, by induction on the levels that are left to spend.
-/
namespace Unmangle.Comparison

variable {C : Comparison} {w : C.World}

/-- What a comparison must keep alike where a nested name is read. It is asked for on its
own, since nothing but a nested name takes a component off the list. -/
def NestedNames (C : Comparison) : Prop :=
  ∀ {limit limit' levels levels' : Nat}, C.Limits limit limit' → C.Limits levels levels' →
    C.Reads (Rule.parse limit levels) (Rule.parse limit' levels') →
    ∀ (tracked : Bool) (w : C.World), C.Follows w (Rule.parse limit (levels + 1) (.nestedName tracked))
      (Rule.parse limit' (levels' + 1) (.nestedName tracked)) C.name

theorem NestedNames.of_pops (law : C.Lawful) (pops : C.Pops) : C.NestedNames :=
  fun limits _ reads tracked _ => Follows.reading (pops.reads tracked) fun _ =>
    Follows.deeper law limits (Follows.nestedName law reads pops tracked)

namespace Follows

variable (law : C.Lawful) {call call' : Calls} (reads : C.Reads call call')
include law reads

/-- Every production but a nested name follows itself. -/
theorem body (rule : Rule) (other : ∀ tracked, rule ≠ .nestedName tracked) :
    C.Follows w (rule.body call) (rule.body call') C.name := by
  cases rule with
  | symbol => exact symbol law reads
  | encoding => exact encoding law reads
  | specialName => exact specialName law reads
  | name tracked => exact name law reads tracked
  | unqualifiedName tracked => exact unqualifiedName law reads tracked
  | nestedName tracked => exact absurd rfl (other tracked)
  | localName tracked => exact localName law reads tracked
  | operatorName tracked => exact operatorName law reads tracked
  | substitution => exact substitution law
  | templateArgs tracked => exact templateArgs law reads tracked
  | templateArg => exact templateArg law reads
  | type => exact type law reads
  | qualifiedType => exact qualifiedType law reads
  | functionType => exact functionType law reads
  | arrayType => exact arrayType law reads
  | memberPointerType => exact memberPointerType law reads
  | namedType => exact namedType law reads
  | decltype => exact decltype law reads
  | vectorType => exact vectorType law reads
  | expression => exact expression law reads
  | bracedExpression => exact bracedExpression law reads
  | literal => exact literal law reads
  | unresolvedName isGlobal => exact unresolvedName law reads isGlobal
  | unresolvedType => exact unresolvedType law reads
  | baseUnresolvedName => exact baseUnresolvedName law reads

end Follows

theorem Limits.refl (n : Nat) : C.Limits n n :=
  ⟨Nat.le_refl n, .inr (Nat.le_refl n)⟩

theorem Limits.below {n n' : Nat} (h : C.Limits (n + 1) (n' + 1)) : C.Limits n n' :=
  ⟨Nat.le_of_succ_le_succ h.le, h.same.imp_right Nat.le_of_succ_le_succ⟩

/-- Where nothing is withheld, both parses have one limit. -/
theorem Limits.eq_of_none {n n' : Nat} (h : C.Limits n n')
    (none : ¬C.withheld .tooMuchRecursion) : n = n' :=
  Nat.le_antisymm h.le (h.same.resolve_left none)

/-- Every rule follows itself, with any number of levels to spend under any limit, where more
of them may be left to the second parse if the first is given up at its own. -/
theorem Lawful.reads_parse (law : C.Lawful) (nested : C.NestedNames) {limit limit' : Nat}
    (limits : C.Limits limit limit') {levels levels' : Nat} (more : C.Limits levels levels') :
    C.Reads (Rule.parse limit levels) (Rule.parse limit' levels') := by
  induction levels generalizing levels' with
  | zero =>
    intro rule w
    rcases more.same with gone | least
    · exact fun _ _ _ _ => ⟨fun _ he => he.elim, .withheld gone⟩
    · obtain rfl := Nat.le_zero.mp least
      exact Follows.throw _
  | succ levels ih =>
    intro rule w
    obtain ⟨levels', rfl⟩ := Nat.exists_eq_add_one_of_ne_zero (Nat.ne_zero_of_lt more.le)
    have deeper := ih more.below
    by_cases other : ∀ tracked, rule ≠ .nestedName tracked
    · exact Follows.reading (law.reads other) fun _ =>
        Follows.deeper law limits (Follows.body law deeper rule other)
    · obtain ⟨tracked, rfl⟩ : ∃ tracked, rule = .nestedName tracked := by
        simpa only [not_forall, not_not] using other
      exact nested limits more.below deeper tracked w

end Unmangle.Comparison
